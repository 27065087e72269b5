import CapaIam.Store

/-!
# Calls to the API server and to IAM

A reconcile touches the world only through calls: reads and finalizer patches against the
store, and the role operations of `iamService`. `World.exec` runs one call. The store and IAM
decide its answer (`NotFound`, `StatusReasonInvalid`, the objects listed); a `Choice` says
whether the call also fails for a reason the model does not decide (a timeout, a throttled or
refused request), and whether a failed write took effect all the same.

`World.write` is everything a call can change, so `exec_fst` (the world after a call is the old
one or the written one) is the only fact about effects that later proofs use.
-/

namespace CapaIam

/-- The IAM state the controllers manage: the role of `iamService.ReconcileRole` for each
instance-profile name, and the IRSA roles of `ReconcileRolesForIRSA` for each cluster (the fixed
catalog of IRSA roles is created and deleted as one). -/
structure IAM where
  roles : List String
  irsaRoles : List String
  deriving DecidableEq, Repr

/-- The errors a reconcile tells apart: `IsNotFound`, `IsInvalid`, and the rest. -/
inductive ErrKind
  | notFound
  | invalid
  | other
  deriving DecidableEq, Repr

/-- Calls whose answer is read only as success or failure. -/
inductive Remote
  | getAWSClusterRoleIdentity
  | getAWSClientSession
  | iamNew
  | getAWSAccountID
  | getBaseDomain
  | getCallerIdentity
  | getIRSAOpenIDURlForEKS
  | getRoleARN
  deriving DecidableEq, Repr

inductive Call
  /-- `r.Get` of one object. -/
  | get (r : ObjRef)
  /-- `key.GetAWSClusterByName`. -/
  | getAWSClusterByName (clusterName ns : String)
  /-- `isRoleUsedElsewhere`, asked for the template of uid `uid`. -/
  | isRoleUsedElsewhere (uid : Nat) (roleName : String)
  /-- `patchHelper.Patch` of the finalizers of `r`, from the helper's snapshot `before` to the
  modified copy `after`. -/
  | patch (r : ObjRef) (before after : List String)
  | reconcileRole (roleName : String)
  | reconcileRolesForIRSA (clusterName : String)
  | deleteRole (roleName : String)
  | deleteRolesForIRSA (clusterName : String)
  | remote (c : Remote)
  deriving DecidableEq, Repr

/-- How a call ends beyond what the store and IAM decide: it goes through, or it fails; a failed
write may have taken effect (`applied`). -/
inductive Choice
  | ok
  | fail (applied : Bool)
  deriving DecidableEq, Repr

/-- What a call answers: an object, a flag, or nothing. -/
inductive Val
  | obj (o : Obj)
  | bool (b : Bool)
  | unit
  deriving DecidableEq, Repr

abbrev Resp := Except ErrKind Val

structure World where
  store : Store
  iam : IAM

namespace Store

/-- `key.GetAWSClusterByName` as the controllers call it, with a namespace (`src/pkg/key` has the
version without): the `AWSCluster`s of the namespace labelled with the cluster name; exactly one,
or an error ("expected 1 AWSCluster but found %d"). -/
def getAWSClusterByName (s : Store) (clusterName ns : String) : Except ErrKind Obj :=
  match s.objects.filter fun o =>
      o.spec == .awsCluster && o.ns == ns && o.labels.clusterName == some clusterName with
  | [o] => .ok o
  | _ => .error .other

theorem mem_of_getAWSClusterByName {C ns : String} {s : Store} {o : Obj}
    (h : s.getAWSClusterByName C ns = .ok o) : o ∈ s.objects ∧ o.spec = .awsCluster := by
  unfold getAWSClusterByName at h
  split at h
  · rename_i o' hl
    obtain rfl := Except.ok.inj h
    have ho : o' ∈ s.objects.filter _ := hl ▸ List.mem_singleton_self o'
    simp only [List.mem_filter, Bool.and_eq_true, beq_iff_eq] at ho
    exact ⟨ho.1, ho.2.1.1⟩
  · cases h

/-- Modelled from the spec: `isRoleUsedElsewhere` is not under `src/`. Spec §4.5: the role name
is still referenced by another tracked object, here another `AWSMachineTemplate` (another uid)
in the store that declares the same `IAMInstanceProfile`. -/
def isRoleUsedElsewhere (s : Store) (uid : Nat) (roleName : String) : Bool :=
  s.objects.any fun o => o.uid != uid && o.spec == .awsMachineTemplate roleName

/-- `patchHelper.Patch` of a finalizer change, seen from the API server. The helper's JSON merge
patch from its snapshot `before` to the modified copy `after` replaces the whole list, with no
`resourceVersion` precondition; when the two agree no request is made. On an object being
deleted the server refuses a list holding a finalizer the object does not have: "no new
finalizers can be added if the object is being deleted" (`StatusReasonInvalid`). -/
def patch (s : Store) (r : ObjRef) (before after : List String) : Except ErrKind Store :=
  if before = after then .ok s
  else
    match s.get r with
    | none => .error .notFound
    | some o =>
      if o.deletionTimestamp ∧ ∃ f ∈ after, f ∉ o.finalizers then .error .invalid
      else .ok (s.update r (.finalizers after))

variable {s s' : Store} {r : ObjRef} {b m : List String}

theorem patch_eq_ok (h : s.patch r b m = .ok s') :
    b = m ∧ s' = s ∨ ∃ o, s.get r = some o ∧ ¬(o.deletionTimestamp ∧ ∃ f ∈ m, f ∉ o.finalizers) ∧
      s' = s.update r (.finalizers m) := by
  unfold patch at h
  split at h
  · exact .inl ⟨‹_›, (Except.ok.inj h).symm⟩
  · split at h
    · cases h
    · rename_i o ho
      split at h
      · cases h
      · exact .inr ⟨o, ho, ‹_›, (Except.ok.inj h).symm⟩

end Store

namespace World

/-- The effect of a call: a patch of the store, or a change of IAM; reads change nothing. -/
def write (w : World) : Call → Except ErrKind World
  | .patch r before after => (w.store.patch r before after).map fun st => { w with store := st }
  | .reconcileRole p => .ok { w with iam := { w.iam with roles := w.iam.roles.insert p } }
  | .reconcileRolesForIRSA c =>
    .ok { w with iam := { w.iam with irsaRoles := w.iam.irsaRoles.insert c } }
  | .deleteRole p => .ok { w with iam := { w.iam with roles := w.iam.roles.filter (· != p) } }
  | .deleteRolesForIRSA c =>
    .ok { w with iam := { w.iam with irsaRoles := w.iam.irsaRoles.filter (· != c) } }
  | _ => .ok w

/-- The answer of a call that goes through. -/
def read (w : World) : Call → Resp
  | .get r =>
    match w.store.get r with
    | some o => .ok (.obj o)
    | none => .error .notFound
  | .getAWSClusterByName c ns => (w.store.getAWSClusterByName c ns).map .obj
  | .isRoleUsedElsewhere u p => .ok (.bool (w.store.isRoleUsedElsewhere u p))
  | _ => .ok .unit

/-- Run a call: the world after it and its answer. -/
def exec (w : World) (c : Call) : Choice → World × Resp
  | .ok =>
    match w.write c with
    | .ok w' => (w', w.read c)
    | .error e => (w, .error e)
  | .fail applied =>
    (if applied then (match w.write c with
      | .ok w' => w'
      | .error _ => w) else w, .error .other)

variable {w w' : World} {c : Call} {ch : Choice}

/-- A call leaves the world as it was, or as `write` makes it. -/
theorem exec_fst (w : World) (c : Call) (ch : Choice) :
    (w.exec c ch).1 = w ∨ w.write c = .ok (w.exec c ch).1 := by
  cases ch with
  | ok =>
    simp only [exec]
    split <;> simp_all
  | fail applied =>
    simp only [exec]
    split
    · split <;> simp_all
    · exact .inl rfl

theorem exec_snd_ok {v : Val} (h : (w.exec c ch).2 = .ok v) :
    ch = .ok ∧ w.write c = .ok (w.exec c ch).1 ∧ w.read c = .ok v := by
  cases ch with
  | ok =>
    simp only [exec] at h ⊢
    split at h
    · simp_all
    · cases h
  | fail => simp [exec] at h

theorem write_store_of_not_patch (hc : ∀ r b a, c ≠ .patch r b a) (h : w.write c = .ok w') :
    w'.store = w.store := by
  cases c <;> simp only [write, Except.ok.injEq] at h <;> (try subst h) <;> try rfl
  exact absurd rfl (hc _ _ _)

theorem write_patch {r : ObjRef} {b a : List String} :
    w.write (.patch r b a) = .ok w' ↔ w.store.patch r b a = .ok w'.store ∧ w'.iam = w.iam := by
  simp only [write]
  cases hp : w.store.patch r b a with
  | error e => simp [Except.map]
  | ok st =>
    simp only [Except.map, Except.ok.injEq, true_and]
    constructor
    · rintro rfl; exact ⟨rfl, rfl⟩
    · rintro ⟨rfl, h⟩; cases w'; simp_all

theorem write_iam_of_patch {r : ObjRef} {b a : List String} (h : w.write (.patch r b a) = .ok w') :
    w'.iam = w.iam :=
  (write_patch.1 h).2

theorem write_roles {P : String} (h : w.write c = .ok w') :
    (P ∈ w'.iam.roles → P ∈ w.iam.roles ∨ c = .reconcileRole P) ∧
      (P ∈ w.iam.roles → P ∈ w'.iam.roles ∨ c = .deleteRole P) := by
  cases c with
  | patch r b a => rw [write_iam_of_patch h]; exact ⟨.inl, .inl⟩
  | reconcileRole p =>
    simp only [write, Except.ok.injEq] at h; subst h
    simp only [List.mem_insert_iff, Call.reconcileRole.injEq]
    exact ⟨fun hP => hP.symm.imp_right Eq.symm, fun hP => .inl (.inr hP)⟩
  | deleteRole p =>
    simp only [write, Except.ok.injEq] at h; subst h
    constructor <;> intro hP
    · simp_all
    · by_cases hp : P = p <;> simp_all
  | _ => simp only [write, Except.ok.injEq] at h; subst h; exact ⟨.inl, .inl⟩

theorem write_irsaRoles {C : String} (h : w.write c = .ok w') :
    (C ∈ w'.iam.irsaRoles → C ∈ w.iam.irsaRoles ∨ c = .reconcileRolesForIRSA C) ∧
      (C ∈ w.iam.irsaRoles → C ∈ w'.iam.irsaRoles ∨ c = .deleteRolesForIRSA C) := by
  cases c with
  | patch r b a => rw [write_iam_of_patch h]; exact ⟨.inl, .inl⟩
  | reconcileRolesForIRSA p =>
    simp only [write, Except.ok.injEq] at h; subst h
    simp only [List.mem_insert_iff, Call.reconcileRolesForIRSA.injEq]
    exact ⟨fun hP => hP.symm.imp_right Eq.symm, fun hP => .inl (.inr hP)⟩
  | deleteRolesForIRSA p =>
    simp only [write, Except.ok.injEq] at h; subst h
    constructor <;> intro hP
    · simp_all
    · by_cases hp : C = p <;> simp_all
  | _ => simp only [write, Except.ok.injEq] at h; subst h; exact ⟨.inl, .inl⟩

theorem not_mem_roles_of_deleteRole {P : String} {v : Val} (h : (w.exec (.deleteRole P) ch).2 = .ok v) :
    P ∉ (w.exec (.deleteRole P) ch).1.iam.roles := by
  have hw := (exec_snd_ok h).2.1
  simp only [write, Except.ok.injEq] at hw
  rw [← hw]
  simp

theorem not_mem_irsaRoles_of_deleteRolesForIRSA {C : String} {v : Val}
    (h : (w.exec (.deleteRolesForIRSA C) ch).2 = .ok v) :
    C ∉ (w.exec (.deleteRolesForIRSA C) ch).1.iam.irsaRoles := by
  have hw := (exec_snd_ok h).2.1
  simp only [write, Except.ok.injEq] at hw
  rw [← hw]
  simp

theorem exec_fst_of_read (hc : w.write c = .ok w) : (w.exec c ch).1 = w := by
  rcases exec_fst w c ch with h | h
  · exact h
  · rw [hc] at h; exact (Except.ok.inj h).symm

theorem exec_ok_of_write (hw : w.write c = .ok w') : w.exec c .ok = (w', w.read c) := by
  simp only [exec, hw]

theorem write_patch_self {r : ObjRef} {b : List String} : w.write (.patch r b b) = .ok w := by
  simp only [write, Store.patch, if_true]
  rfl

/-- A patch that changes the list, on an object that accepts the new list, writes it. -/
theorem write_patch_of_get {r : ObjRef} {o : Obj} {b m : List String} (hget : w.store.get r = some o)
    (hne : b ≠ m) (hok : ¬(o.deletionTimestamp = true ∧ ∃ f ∈ m, f ∉ o.finalizers)) :
    w.write (.patch r b m) = .ok ⟨w.store.update r (.finalizers m), w.iam⟩ := by
  simp only [write, Store.patch, if_neg hne, hget, if_neg hok]
  rfl

end World

/-- What a call that answered `v` says about the store after it: the object read, the cluster
found, the guard's answer, or for a patch that changed the list, the list now stored under the
name, which still holds an object unless the list is empty. -/
def Call.Answered (st : Store) : Call → Val → Prop
  | .get r, v => ∃ o, v = .obj o ∧ st.get r = some o
  | .getAWSClusterByName _ _, v => ∃ o, v = .obj o ∧ o ∈ st.objects ∧ o.spec = .awsCluster
  | .isRoleUsedElsewhere u p, v => v = .bool (st.isRoleUsedElsewhere u p)
  | .patch r b m, _ => b ≠ m →
    (∀ o ∈ st.objects, o.ref = r → o.finalizers = m) ∧ (m ≠ [] → ∃ o ∈ st.objects, o.ref = r)
  | _, _ => True

namespace World

variable {w : World} {c : Call} {ch : Choice}

theorem exec_answered {v : Val} (h : (w.exec c ch).2 = .ok v) : c.Answered (w.exec c ch).1.store v := by
  obtain ⟨-, hw, hr⟩ := exec_snd_ok h
  cases c with
  | get r =>
    rw [show (w.exec (.get r) ch).1 = w from exec_fst_of_read rfl]
    simp only [read] at hr
    split at hr
    · exact ⟨_, (Except.ok.inj hr).symm, ‹_›⟩
    · cases hr
  | getAWSClusterByName cn ns =>
    rw [show (w.exec (.getAWSClusterByName cn ns) ch).1 = w from exec_fst_of_read rfl]
    cases hg : w.store.getAWSClusterByName cn ns with
    | ok o =>
      rw [read, hg] at hr
      exact ⟨o, (Except.ok.inj hr).symm, Store.mem_of_getAWSClusterByName hg⟩
    | error e => rw [read, hg] at hr; cases hr
  | isRoleUsedElsewhere u p =>
    rw [show (w.exec (.isRoleUsedElsewhere u p) ch).1 = w from exec_fst_of_read rfl]
    exact (Except.ok.inj hr).symm
  | patch r b m =>
    intro hbm
    rcases Store.patch_eq_ok (write_patch.1 hw).1 with ⟨hbm', -⟩ | ⟨o, ho, -, hs⟩
    · exact absurd hbm' hbm
    · rw [hs]
      refine ⟨fun o' ho' hr => Store.finalizers_of_mem_update ho' hr, fun hm => ?_⟩
      refine ⟨_, Store.mem_update.2 (.inr ⟨o, Store.mem_of_get ho, Store.ref_of_get ho, rfl, ?_⟩),
        (Edit.ref_apply _ o).trans (Store.ref_of_get ho)⟩
      simp [Obj.collected, Edit.apply, hm]
  | _ => trivial

theorem answered_of_call {o : Option Call} (hc : o = some c) :
    ∀ c' v, o = some c' → (w.exec c ch).2 = .ok v → c'.Answered (w.exec c ch).1.store v :=
  fun c' v hc' hv => by
    rw [hc, Option.some.injEq] at hc'
    subst hc'
    exact exec_answered hv

end World

end CapaIam

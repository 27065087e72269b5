import CapaIam.DeleteProgress
import CapaIam.Ownership
/-!
# Concurrent normal reconciles converge

Reconciles of live templates run side by side, their calls interleaved in any order, any call
failing. Two of them may declare the same instance profile and race to create the same role;
`ReconcileRole` of a role that exists succeeds. Whenever one of them returns nil, what it set out
to do is in place: its template carries `FinalizerName(ControlPlaneRole)`, its role exists, and
for a control-plane template with `EnableRoute53Role` the IRSA roles of its cluster exist
(`normal_reconciles_converge`).

A normal reconcile of a template `A` sees the store's `A` at some `Stage`: as it was, or `marked`.
`Pc.Normal` says where the reconcile may stand on the normal path and what holds there; it only
reads facts that no step undoes (`Grows`): the template marked, a role present. A reconcile's
own step keeps it (`Pc.Normal.next_ok`); the steps of the other reconciles patch only their own
templates and create roles, so they keep it too (`Pc.Normal.grows`).
-/

namespace CapaIam

namespace Controllerutil

theorem addFinalizer_of_contains {fs : List String} {f : String} (h : f ∈ fs) : addFinalizer fs f = fs := by
  simp [addFinalizer, h]

@[simp] theorem addFinalizer_addFinalizer {fs : List String} {f : String} :
    addFinalizer (addFinalizer fs f) f = addFinalizer fs f :=
  addFinalizer_of_contains (mem_addFinalizer.2 (.inr rfl))

end Controllerutil

namespace AWSMachineTemplateReconciler

/-- The template `A` once `reconcileNormal` has patched `FinalizerName(ControlPlaneRole)` onto it. -/
def marked (A : Obj) : Obj :=
  { A with finalizers := Controllerutil.addFinalizer A.finalizers controlPlaneFinalizer }

/-- `t` is `A` as normal reconciles leave it: as it was, or marked. -/
def Stage (A t : Obj) : Prop := t = A ∨ t = marked A

/-- The checks of `Reconcile` that a live template passes on its way to `reconcileNormal`. -/
structure NormalReady (A : Obj) (role : RoleType) (C : String) : Prop where
  watch : Key.hasCapiWatchLabel A.labels = true
  labelled : roleOf A.labels = some role
  cluster : Key.getClusterIDFromLabels A.labels = some C
  profile : A.spec.iamInstanceProfile ≠ ""
  live : A.deletionTimestamp = false

variable {cfg : AWSMachineTemplateReconciler} {A t : Obj} {role : RoleType} {C : String}

theorem mem_marked : controlPlaneFinalizer ∈ (marked A).finalizers := by
  simp [marked]

namespace Stage

theorem refl (A : Obj) : Stage A A := .inl rfl

theorem marked (A : Obj) : Stage A (marked A) := .inr rfl

theorem with_finalizers (h : Stage A t) (fs : List String) :
    ({ t with finalizers := fs } : Obj) = { A with finalizers := fs } := by
  rcases h with rfl | rfl <;> rfl

theorem ref (h : Stage A t) : t.ref = A.ref := by rcases h with rfl | rfl <;> rfl

theorem spec (h : Stage A t) : t.spec = A.spec := by rcases h with rfl | rfl <;> rfl

theorem labels (h : Stage A t) : t.labels = A.labels := by rcases h with rfl | rfl <;> rfl

theorem deletionTimestamp (h : Stage A t) : t.deletionTimestamp = A.deletionTimestamp := by
  rcases h with rfl | rfl <;> rfl

theorem addFinalizer (h : Stage A t) :
    Controllerutil.addFinalizer t.finalizers controlPlaneFinalizer =
      Controllerutil.addFinalizer A.finalizers controlPlaneFinalizer := by
  rcases h with rfl | rfl
  · rfl
  · exact Controllerutil.addFinalizer_addFinalizer

theorem eq_marked (h : Stage A t)
    (hc : Controllerutil.containsFinalizer t.finalizers controlPlaneFinalizer = true) : t = AWSMachineTemplateReconciler.marked A := by
  rcases h with rfl | rfl
  · simp only [AWSMachineTemplateReconciler.marked,
      Controllerutil.addFinalizer_of_contains (Controllerutil.containsFinalizer_iff.1 hc)]
  · rfl

theorem patch (h : Stage A t) {c : Obj} (hc : Stage A c) :
    ({ t with finalizers := Controllerutil.addFinalizer c.finalizers controlPlaneFinalizer } : Obj) =
      AWSMachineTemplateReconciler.marked A := by
  rw [h.with_finalizers, hc.addFinalizer]
  rfl

theorem get_update {st : Store} (h : Stage A t) (ht : st.get A.ref = some t) (hlive : A.deletionTimestamp = false) :
    (st.update A.ref (.finalizers (Controllerutil.addFinalizer A.finalizers controlPlaneFinalizer))).get A.ref =
      some (AWSMachineTemplateReconciler.marked A) := by
  rw [Store.get_update_finalizers ht (by simp [Obj.collected, h.deletionTimestamp, hlive]), h.with_finalizers]
  rfl

end Stage

theorem afterGet_stage (hr : NormalReady A role C) (h : Stage A t) :
    afterGet t = .getAWSCluster ⟨t, role, C⟩ := by
  simp [afterGet, h.labels, h.spec, hr.watch, hr.labelled, hr.cluster, hr.profile]

/-- What a normal reconcile of `A` that returned nil has achieved in `w`. -/
def NormalDone (cfg : AWSMachineTemplateReconciler) (A : Obj) (role : RoleType) (C : String)
    (w : World) : Prop :=
  w.store.get A.ref = some (marked A) ∧ A.spec.iamInstanceProfile ∈ w.iam.roles ∧
    (role = .controlPlaneRole ∧ cfg.enableRoute53Role = true → C ∈ w.iam.irsaRoles)

/-- The locals of a normal reconcile of `A`: the template read is `A` at some stage, with the role
and cluster of `A`; if it already carried the finalizer, the store's template is marked. -/
def CtxOk (A : Obj) (role : RoleType) (C : String) (st : Store) (c : Ctx) : Prop :=
  Stage A c.t ∧ c.role = role ∧ c.clusterName = C ∧
    (Controllerutil.containsFinalizer c.t.finalizers controlPlaneFinalizer = true →
      st.get A.ref = some (marked A))

/-- Where a reconcile of `A` may stand on the normal path in the world `w`, and what holds there:
past `AddFinalizer` the store's template is marked, past `ReconcileRole` the role exists, and a
nil return has done its work. -/
def Pc.Normal (cfg : AWSMachineTemplateReconciler) (A : Obj) (role : RoleType) (C : String)
    (w : World) : Pc → Prop
  | .get => True
  | .getAWSCluster c | .addFinalizer c => CtxOk A role C w.store c
  | .remote _ next => next.Normal cfg A role C w
  | .getAWSClusterNormal c | .reconcileRole c =>
    CtxOk A role C w.store c ∧ w.store.get A.ref = some (marked A)
  | .reconcileRolesForIRSA c =>
    CtxOk A role C w.store c ∧ w.store.get A.ref = some (marked A) ∧
      A.spec.iamInstanceProfile ∈ w.iam.roles
  | .returned _ res => res.2 = none → NormalDone cfg A role C w
  | _ => False

/-- How the world may move under a reconcile of `A` without undoing what `Pc.Normal` reads: a
marked template stays marked, and no role is deleted. -/
structure Grows (A : Obj) (w w' : World) : Prop where
  marked : w.store.get A.ref = some (marked A) → w'.store.get A.ref = some (marked A)
  roles : ∀ P ∈ w.iam.roles, P ∈ w'.iam.roles
  irsaRoles : ∀ C ∈ w.iam.irsaRoles, C ∈ w'.iam.irsaRoles

theorem Grows.refl (A : Obj) (w : World) : Grows A w w :=
  ⟨id, fun _ => id, fun _ => id⟩

theorem Grows.of_iam {w w' : World} (hs : w'.store = w.store) (hr : ∀ P ∈ w.iam.roles, P ∈ w'.iam.roles)
    (hi : ∀ C ∈ w.iam.irsaRoles, C ∈ w'.iam.irsaRoles) : Grows A w w' :=
  ⟨fun h => hs ▸ h, hr, hi⟩

theorem CtxOk.grows {w w' : World} {c : Ctx} (h : CtxOk A role C w.store c) (hg : Grows A w w') :
    CtxOk A role C w'.store c :=
  ⟨h.1, h.2.1, h.2.2.1, fun hc => hg.marked (h.2.2.2 hc)⟩

theorem Pc.Normal.grows {w w' : World} (hg : Grows A w w') {p : Pc}
    (h : p.Normal cfg A role C w) : p.Normal cfg A role C w' := by
  induction p with
  | get => trivial
  | getAWSCluster c | addFinalizer c => exact CtxOk.grows h hg
  | remote r next ih => exact ih h
  | getAWSClusterNormal c | reconcileRole c => exact ⟨CtxOk.grows h.1 hg, hg.marked h.2⟩
  | reconcileRolesForIRSA c => exact ⟨CtxOk.grows h.1 hg, hg.marked h.2.1, hg.roles _ h.2.2⟩
  | returned t res =>
    intro hn
    obtain ⟨hm, hP, hI⟩ := h hn
    exact ⟨hg.marked hm, hg.roles _ hP, fun hc => hg.irsaRoles _ (hI hc)⟩
  | _ => exact h.elim

theorem Pc.Normal.fail (p : Pc) (e : ErrKind) {w : World} : (p.fail e).Normal cfg A role C w :=
  fun h => by cases h

theorem Pc.Normal.next_error {w : World} {p : Pc} {e : ErrKind} (hp : p.Normal cfg A role C w)
    (he : p = .get → e ≠ .notFound) : (p.next cfg (.error e)).Normal cfg A role C w := by
  cases p with
  | get =>
    cases e with
    | notFound => exact absurd rfl (he rfl)
    | _ => exact Pc.Normal.fail _ _
  | returned => exact Pc.Normal.fail _ _
  | _ => first | exact hp.elim | exact Pc.Normal.fail _ _

variable {w w' : World} {p : Pc} {x : Call} {ns name : String}

theorem write_addFinalizer {c : Ctx} (hc : Stage A c.t)
    (hw : w.write (.patch c.t.ref c.t.finalizers
      (Controllerutil.addFinalizer c.t.finalizers controlPlaneFinalizer)) = .ok w') :
    (controlPlaneFinalizer ∈ c.t.finalizers ∧ w' = w) ∨
      w' = ⟨w.store.update A.ref
        (.finalizers (Controllerutil.addFinalizer A.finalizers controlPlaneFinalizer)), w.iam⟩ := by
  obtain ⟨hp, hi⟩ := World.write_patch.1 hw
  rcases Store.patch_eq_ok hp with ⟨hbm, hs⟩ | ⟨o, -, -, hs⟩
  · refine .inl ⟨hbm ▸ Controllerutil.mem_addFinalizer.2 (.inr rfl), ?_⟩
    obtain ⟨st', iam'⟩ := w'
    simp only at hs hi
    rw [hs, hi]
  · refine .inr ?_
    rw [hc.ref, hc.addFinalizer] at hs
    obtain ⟨st', iam'⟩ := w'
    simp only at hs hi
    rw [hs, hi]

/-- Where a normal reconcile of the live template `A` may stand: every template it read is `A` at
some stage. -/
def Pc.Live (A : Obj) : Pc → Prop
  | .get => True
  | .getAWSCluster c | .addFinalizer c | .getAWSClusterNormal c | .reconcileRole c
  | .reconcileRolesForIRSA c => Stage A c.t
  | .remote _ next => next.Live A
  | .returned _ _ => True
  | _ => False

theorem Pc.Live.write (hp : p.Live A) (hc : p.call ns name = some x) (hw : w.write x = .ok w') :
    w' = w ∨
      w' = ⟨w.store.update A.ref
        (.finalizers (Controllerutil.addFinalizer A.finalizers controlPlaneFinalizer)), w.iam⟩ ∨
      (w'.store = w.store ∧ (∀ P ∈ w.iam.roles, P ∈ w'.iam.roles) ∧
        ∀ C ∈ w.iam.irsaRoles, C ∈ w'.iam.irsaRoles) := by
  cases p with
  | addFinalizer c =>
    cases hc
    exact (write_addFinalizer hp hw).elim (fun h => .inl h.2) (fun h => .inr (.inl h))
  | reconcileRole c | reconcileRolesForIRSA c =>
    cases hc
    cases hw
    exact .inr (.inr ⟨rfl, fun _ h => by simp [h], fun _ h => by simp [h]⟩)
  | returned => cases hc
  | _ => first | exact hp.elim | (cases hc; cases hw; exact .inl rfl)

theorem Pc.Normal.live (hp : p.Normal cfg A role C w) : p.Live A := by
  induction p with
  | get | returned => trivial
  | remote _ _ ih => exact ih hp
  | getAWSCluster c | addFinalizer c => exact hp.1
  | getAWSClusterNormal c | reconcileRole c | reconcileRolesForIRSA c => exact hp.1.1
  | _ => exact hp.elim

/-- A call of a normal reconcile of `A` that goes through keeps it on the normal path: the `Get`
reads `A` at some stage, which passes the checks; `AddFinalizer` marks `A`; `ReconcileRole` and
`ReconcileRolesForIRSA` create the roles a nil return claims. -/
theorem Pc.Normal.next_ok {req : NamespacedName} (hr : NormalReady A role C)
    (href : A.ref = req.ref .awsMachineTemplate) (hst : ∃ t, w.store.get A.ref = some t ∧ Stage A t)
    (hp : p.Normal cfg A role C w) (hc : p.call req.ns req.name = some x) (hw : w.write x = .ok w')
    {v : Val} (hv : w.read x = .ok v) : (p.next cfg (.ok v)).Normal cfg A role C w' := by
  obtain ⟨t₀, ht₀, hs₀⟩ := hst
  cases p with
  | get =>
    cases hc
    cases hw
    have hget : w.store.get ⟨.awsMachineTemplate, req.ns, req.name⟩ = some t₀ := by
      rw [show (⟨.awsMachineTemplate, req.ns, req.name⟩ : ObjRef) = A.ref from href.symm]
      exact ht₀
    simp only [World.read, hget, Except.ok.injEq] at hv
    subst hv
    simp only [Pc.next, afterGet_stage hr hs₀]
    exact ⟨hs₀, rfl, rfl, fun hc => hs₀.eq_marked hc ▸ ht₀⟩
  | getAWSCluster c =>
    cases hc
    cases hw
    have hdel : c.t.deletionTimestamp = false := hp.1.deletionTimestamp.trans hr.live
    cases hcon : Controllerutil.containsFinalizer c.t.finalizers controlPlaneFinalizer
    · simpa [Pc.next, session, Pc.Normal, hdel, hcon] using hp
    · simpa [Pc.next, session, Pc.Normal, hdel, hcon] using ⟨hp, hp.2.2.2 hcon⟩
  | remote r next =>
    cases hc
    cases hw
    exact hp
  | addFinalizer c =>
    cases hc
    simp only [Pc.next]
    rcases write_addFinalizer hp.1 hw with ⟨hin, rfl⟩ | rfl
    · exact ⟨hp, hp.2.2.2 (Controllerutil.containsFinalizer_iff.2 hin)⟩
    · have hm := hs₀.get_update ht₀ hr.live
      exact ⟨⟨hp.1, hp.2.1, hp.2.2.1, fun _ => hm⟩, hm⟩
  | getAWSClusterNormal c =>
    cases hc
    cases hw
    exact hp
  | reconcileRole c =>
    cases hc
    cases hw
    simp only [Pc.next, afterReconcileRole]
    split
    · exact ⟨hp.1, hp.2, by simp [hp.1.1.spec]⟩
    · rename_i hno
      refine fun _ => ⟨hp.2, by simp [hp.1.1.spec], fun h => absurd ?_ hno⟩
      rw [hp.1.2.1]
      exact h
  | reconcileRolesForIRSA c =>
    cases hc
    cases hw
    exact fun _ => ⟨hp.2.1, hp.2.2, fun _ => by simp [hp.1.2.2.1]⟩
  | returned => cases hc
  | _ => exact hp.elim

theorem exec_get_ne_notFound {r : ObjRef} (hget : w.store.get r = some t) (ch : Choice) :
    (w.exec (.get r) ch).2 ≠ .error .notFound := by
  cases ch <;> simp [World.exec, World.write, World.read, hget]

/-- The world after a call of a normal reconcile of `A`: its template still at some stage, and
nothing `Pc.Normal` reads undone. -/
theorem Pc.Normal.exec_own (hr : NormalReady A role C) (hp : p.Normal cfg A role C w)
    (hc : p.call ns name = some x) (hst : ∃ t, w.store.get A.ref = some t ∧ Stage A t) (ch : Choice) :
    Grows A w (w.exec x ch).1 ∧ ∃ t, (w.exec x ch).1.store.get A.ref = some t ∧ Stage A t := by
  generalize hw₁ : (w.exec x ch).1 = w₁
  rcases World.exec_fst w x ch with h | h <;> rw [hw₁] at h
  · rw [h]
    exact ⟨Grows.refl _ _, hst⟩
  rcases hp.live.write hc h with rfl | rfl | ⟨hs, hro, hi⟩
  · exact ⟨Grows.refl _ _, hst⟩
  · obtain ⟨t₀, ht₀, hs₀⟩ := hst
    have hm := hs₀.get_update ht₀ hr.live
    exact ⟨⟨fun _ => hm, fun _ => id, fun _ => id⟩, _, hm, Stage.marked A⟩
  · exact ⟨Grows.of_iam hs hro hi, by rw [hs]; exact hst⟩

/-- The world after a call of a normal reconcile of another template `B`: `A` as it was, and
nothing `Pc.Normal` reads undone. -/
theorem Pc.Normal.exec_other {B : Obj} {role' : RoleType} {C' : String}
    (hp : p.Normal cfg B role' C' w) (hc : p.call ns name = some x) (hAB : A.ref ≠ B.ref) (ch : Choice) :
    Grows A w (w.exec x ch).1 ∧ (w.exec x ch).1.store.get A.ref = w.store.get A.ref := by
  generalize hw₁ : (w.exec x ch).1 = w₁
  rcases World.exec_fst w x ch with h | h <;> rw [hw₁] at h
  · rw [h]
    exact ⟨Grows.refl _ _, rfl⟩
  rcases hp.live.write hc h with rfl | rfl | ⟨hs, hro, hi⟩
  · exact ⟨Grows.refl _ _, rfl⟩
  · have hget : (w.store.update B.ref (.finalizers (Controllerutil.addFinalizer B.finalizers
        controlPlaneFinalizer))).get A.ref = w.store.get A.ref := Store.get_update_of_ne hAB
    exact ⟨⟨fun h => hget.trans h, fun _ => id, fun _ => id⟩, hget⟩
  · exact ⟨Grows.of_iam hs hro hi, by rw [hs]⟩

end AWSMachineTemplateReconciler

namespace Sys

open AWSMachineTemplateReconciler

variable {cfg : AWSMachineTemplateReconciler} {s : Sys} {req req' : NamespacedName} {A B : Obj}
  {role role' : RoleType} {C C' : String}

/-- The template reconcile of `req` works on the live template `A` on its normal path: `A` is in
the store at some stage, and the run, if any, stands where `Pc.Normal` allows. -/
structure NormalRun (cfg : AWSMachineTemplateReconciler) (s : Sys) (req : NamespacedName)
    (A : Obj) (role : RoleType) (C : String) : Prop where
  ready : NormalReady A role C
  ref : A.ref = req.ref .awsMachineTemplate
  stored : ∃ t, s.store.get A.ref = some t ∧ Stage A t
  run : ∀ p, s.templateRuns req = some p → p.Normal cfg A role C s.world

/-- A step of the reconcile itself keeps it on its normal path, whatever the call answers. -/
theorem NormalRun.own (h : NormalRun cfg s req A role C) (ch : Choice) :
    NormalRun cfg (s.step cfg (.template req ch)) req A role C := by
  rcases step_template cfg s req ch with ⟨t, r, -, hs⟩ | ⟨pc, c, hpc, -, hc, hs⟩
  · rw [hs]
    exact ⟨h.ready, h.ref, h.stored, fun p hp => by simp at hp⟩
  have hn : pc.Normal cfg A role C s.world := holds_of_run hpc h.run trivial
  obtain ⟨hg, hst⟩ := hn.exec_own h.ready hc h.stored ch
  rw [hs]
  refine ⟨h.ready, h.ref, hst, fun p hp => ?_⟩
  simp only [Function.update_same, Option.some.injEq] at hp
  subst hp
  cases hr : (s.world.exec c ch).2 with
  | ok v =>
    obtain ⟨rfl, hw, hv⟩ := World.exec_snd_ok hr
    exact hn.next_ok h.ready h.ref h.stored hc hw hv
  | error e =>
    refine (hn.next_error fun hget => ?_).grows hg
    subst hget
    obtain ⟨t₀, ht₀, -⟩ := h.stored
    cases hc
    rintro rfl
    exact exec_get_ne_notFound
      (show s.world.store.get (req.ref .awsMachineTemplate) = some t₀ from h.ref ▸ ht₀) ch hr

theorem NormalRun.other (h : NormalRun cfg s req A role C) (h' : NormalRun cfg s req' B role' C')
    (hne : req' ≠ req) (ch : Choice) : NormalRun cfg (s.step cfg (.template req' ch)) req A role C := by
  have hrun : (s.step cfg (.template req' ch)).templateRuns req = s.templateRuns req :=
    templateRuns_template_of_ne ch (Ne.symm hne)
  rcases step_template cfg s req' ch with ⟨t, r, -, hs⟩ | ⟨pc, c, hpc, -, hc, hs⟩
  · rw [hs] at hrun ⊢
    exact ⟨h.ready, h.ref, h.stored, fun p hp => h.run p (hrun ▸ hp)⟩
  have hn : pc.Normal cfg B role' C' s.world := holds_of_run hpc h'.run trivial
  have hAB : A.ref ≠ B.ref := fun e => hne (NamespacedName.ref_inj ((h.ref.symm.trans e).trans h'.ref)).symm
  obtain ⟨hg, hget⟩ := hn.exec_other hc hAB ch
  rw [hs] at hrun ⊢
  exact ⟨h.ready, h.ref, by simpa only [hget] using h.stored, fun p hp => (h.run p (hrun ▸ hp)).grows hg⟩

theorem normalRun_step {reqs : List NamespacedName}
    (h : ∀ req ∈ reqs, ∃ A role C, NormalRun cfg s req A role C) (hreq' : req' ∈ reqs) (ch : Choice) :
    ∀ req ∈ reqs, ∃ A role C, NormalRun cfg (s.step cfg (.template req' ch)) req A role C := by
  intro req hreq
  obtain ⟨A, role, C, hA⟩ := h req hreq
  by_cases he : req' = req
  · subst he
    exact ⟨A, role, C, hA.own ch⟩
  · obtain ⟨B, role', C', hB⟩ := h req' hreq'
    exact ⟨A, role, C, hA.other hB he ch⟩

/-- Every reconcile of the requests `reqs` stays on its normal path over any interleaving of their
steps. -/
theorem normalRun_run {reqs : List NamespacedName} :
    ∀ (as : List Action) {s : Sys}, (∀ a ∈ as, ∃ req ∈ reqs, ∃ ch, a = .template req ch) →
      (∀ req ∈ reqs, ∃ A role C, NormalRun cfg s req A role C) →
      ∀ req ∈ reqs, ∃ A role C, NormalRun cfg (s.run cfg as) req A role C
  | [], _, _, h => h
  | a :: as, s, has, h => by
    obtain ⟨req', hreq', ch, rfl⟩ := has a (List.mem_cons_self a as)
    exact normalRun_run as (fun b hb => has b (List.mem_cons_of_mem _ hb)) (normalRun_step h hreq' ch)

theorem normalRun_init {reqs : List NamespacedName} (hidle : ∀ req ∈ reqs, s.templateRuns req = none)
    (hready : ∀ req ∈ reqs, ∃ A role C, s.store.get (req.ref .awsMachineTemplate) = some A ∧
      NormalReady A role C) :
    ∀ req ∈ reqs, ∃ A role C, NormalRun cfg s req A role C := fun req hreq => by
  obtain ⟨A, role, C, hA, hr⟩ := hready req hreq
  refine ⟨A, role, C, hr, Store.ref_of_get hA, ⟨A, ?_, Stage.refl A⟩, fun p hp => ?_⟩
  · rw [Store.ref_of_get hA]
    exact hA
  · rw [hidle req hreq] at hp
    cases hp

/-- Reconciles of live templates that pass the checks, run side by side with their calls
interleaved in any order and any call failing, converge: whenever one of them has returned nil,
its template carries `FinalizerName(ControlPlaneRole)` and its role exists, and for a
control-plane template with `EnableRoute53Role` so do the IRSA roles of its cluster. Templates
may share a profile and so race to create one role. -/
theorem normal_reconciles_converge (reqs : List NamespacedName)
    (hidle : ∀ req ∈ reqs, s.templateRuns req = none)
    (hready : ∀ req ∈ reqs, ∃ A role C, s.store.get (req.ref .awsMachineTemplate) = some A ∧
      NormalReady A role C)
    (as : List Action) (has : ∀ a ∈ as, ∃ req ∈ reqs, ∃ ch, a = .template req ch)
    (hreq : req ∈ reqs) {t : Option Obj}
    (hret : (s.run cfg as).templateRuns req = some (.returned t (⟨false⟩, none))) :
    ∃ A, (s.run cfg as).store.get (req.ref .awsMachineTemplate) = some A ∧
      controlPlaneFinalizer ∈ A.finalizers ∧ A.spec.iamInstanceProfile ∈ (s.run cfg as).iam.roles ∧
      (roleOf A.labels = some .controlPlaneRole → cfg.enableRoute53Role = true →
        ∃ C, Key.getClusterIDFromLabels A.labels = some C ∧ C ∈ (s.run cfg as).iam.irsaRoles) := by
  obtain ⟨A, role, C, h⟩ := normalRun_run as has (normalRun_init hidle hready) req hreq
  obtain ⟨hm, hP, hI⟩ := h.run _ hret rfl
  refine ⟨marked A, h.ref ▸ hm, mem_marked, hP, fun hcp hr53 => ⟨C, h.ready.cluster, hI ⟨?_, hr53⟩⟩⟩
  have := h.ready.labelled
  rw [show (marked A).labels = A.labels from rfl, this] at hcp
  exact Option.some.inj hcp

/-- Two live control-plane templates of a rollover declaring the same profile, and their cluster. -/
def rolloverOldLive : Obj :=
  ⟨1, "ns", "cp-old", .awsMachineTemplate "cp-role", ⟨some "c", some "capi", some "control-plane"⟩, false, []⟩

def rolloverNewLive : Obj :=
  ⟨2, "ns", "cp-new", .awsMachineTemplate "cp-role", ⟨some "c", some "capi", some "control-plane"⟩, false, []⟩

def rolloverLive : Store where
  objects := [⟨0, "ns", "cluster", .awsCluster, ⟨some "c", none, none⟩, false, []⟩, rolloverOldLive,
    rolloverNewLive]
  nextUid := 3
  nodup := by decide
  uid_nodup := by decide
  uid_lt := by decide

/-- Their reconciles, one call each in turn. -/
def rolloverRace : List Action :=
  (List.replicate 12 [.template ⟨"ns", "cp-old"⟩ .ok, .template ⟨"ns", "cp-new"⟩ .ok]).flatten

theorem rollover_race_converges :
    ∃ A, ((init rolloverLive).run ⟨true⟩ rolloverRace).store.get
        (NamespacedName.ref ⟨"ns", "cp-old"⟩ .awsMachineTemplate) = some A ∧
      controlPlaneFinalizer ∈ A.finalizers ∧
      A.spec.iamInstanceProfile ∈ ((init rolloverLive).run ⟨true⟩ rolloverRace).iam.roles ∧
      (roleOf A.labels = some .controlPlaneRole →
        (⟨true⟩ : AWSMachineTemplateReconciler).enableRoute53Role = true →
        ∃ C, Key.getClusterIDFromLabels A.labels = some C ∧
          C ∈ ((init rolloverLive).run ⟨true⟩ rolloverRace).iam.irsaRoles) :=
  normal_reconciles_converge [⟨"ns", "cp-old"⟩, ⟨"ns", "cp-new"⟩] (fun _ _ => rfl)
    (fun req hreq => by
      simp only [List.mem_cons, List.mem_singleton, List.not_mem_nil, or_false] at hreq
      rcases hreq with rfl | rfl
      · exact ⟨rolloverOldLive, .controlPlaneRole, "c", by decide,
          ⟨by decide, by decide, by decide, by decide, by decide⟩⟩
      · exact ⟨rolloverNewLive, .controlPlaneRole, "c", by decide,
          ⟨by decide, by decide, by decide, by decide, by decide⟩⟩)
    rolloverRace
    (fun a ha => by
      obtain ⟨l, hl, ha⟩ := List.mem_flatten.1 ha
      rw [(List.mem_replicate.1 hl).2] at ha
      simp only [List.mem_cons, List.mem_singleton, List.not_mem_nil, or_false] at ha
      rcases ha with rfl | rfl
      · exact ⟨_, by simp, _, rfl⟩
      · exact ⟨_, by simp, _, rfl⟩)
    (by decide)
    (show ((init rolloverLive).run ⟨true⟩ rolloverRace).templateRuns ⟨"ns", "cp-old"⟩ =
      some (.returned (some rolloverOldLive) (⟨false⟩, none)) from by decide)

end Sys

end CapaIam

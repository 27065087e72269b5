import CapaIam.Frame

/-!
# A reconcile run alone

What a reconcile achieves when nothing interferes. `Alone call next n p w q w'` says that the
reconcile at `p`, every call going through, makes `n` calls against the world `w` and then stands
at `q` with the world `w'`, not having returned before. `Sys.templateAlone` is the system running
only the template reconcile of one request, every call going through; `templateAlone_of_alone`
shows it does what `Alone` says, so that the rest is about one reconcile and the world.

Over it, `reconcileNormal` does its job: a reconcile of a live template that passes the label and
profile checks and finds its `AWSCluster` puts the finalizer on the template, creates the role
and, for a control-plane template with `EnableRoute53Role`, the IRSA roles of the cluster, and
returns nil without requeue, leaving `normalWorld` (`alone_normal`).
-/

namespace CapaIam

/-- The reconcile at `p`, every call going through against `w`, makes `n` calls and then stands
at `q` with the world `w'`. -/
inductive Alone {P : Type} (call : P → Option Call) (next : P → Resp → P) :
    Nat → P → World → P → World → Prop
  | refl (p : P) (w : World) : Alone call next 0 p w p w
  | step {n : Nat} {p q : P} {w w' : World} {c : Call} (hc : call p = some c) :
    Alone call next n (next p (w.exec c .ok).2) (w.exec c .ok).1 q w' → Alone call next (n + 1) p w q w'

namespace Alone

variable {P : Type} {call : P → Option Call} {next : P → Resp → P} {m n : Nat} {p q r : P}
  {w w' w'' : World} {c : Call}

theorem trans (h₁ : Alone call next m p w q w') (h₂ : Alone call next n q w' r w'') :
    Alone call next (m + n) p w r w'' := by
  induction h₁ with
  | refl => simpa using h₂
  | step hc _ ih =>
    rw [Nat.add_right_comm]
    exact .step hc (ih h₂)

theorem cons {w₁ : World} (hc : call p = some c) (hw : w.write c = .ok w₁)
    (h : Alone call next n (next p (w.read c)) w₁ q w') : Alone call next (n + 1) p w q w' :=
  .step hc (by rw [World.exec_ok_of_write hw]; exact h)

theorem cast {w₁ : World} (h : Alone call next m p w q w₁) (hmn : m = n) (hw : w₁ = w') :
    Alone call next n p w q w' :=
  hmn ▸ hw ▸ h

end Alone

namespace Store

variable {s : Store} {r : ObjRef} {o : Obj} {fs : List String}

theorem filter_filter_map {P G : Obj → Bool} {f : Obj → Obj} {l : List Obj}
    (h : ∀ o ∈ l, P (f o) = P o ∧ (P o = true → G o = true ∧ f o = o)) :
    ((l.map f).filter G).filter P = l.filter P := by
  induction l with
  | nil => rfl
  | cons o l ih =>
    have ih := ih fun o' ho' => h o' (List.mem_cons_of_mem o ho')
    obtain ⟨hP, hG⟩ := h o (List.mem_cons_self o l)
    cases hPo : P o
    · rw [hPo] at hP
      rw [List.map_cons, List.filter_cons]
      split <;> simp only [List.filter_cons, hP, hPo, Bool.false_eq_true, if_false, ih]
    · obtain ⟨hGo, hfo⟩ := hG hPo
      simp only [List.map_cons, hfo, List.filter_cons, hGo, hPo, if_true, ih]

theorem getAWSClusterByName_update {e : Edit} (hr : r.kind ≠ .awsCluster) (C ns : String) :
    (s.update r e).getAWSClusterByName C ns = s.getAWSClusterByName C ns := by
  simp only [getAWSClusterByName, update, updateObjects]
  rw [filter_filter_map fun o _ => ?_]
  by_cases ho : o.ref = r
  · have hk : o.spec ≠ .awsCluster := fun h => hr (by rw [← ho]; simp [Obj.ref, h, Spec.kind])
    simp [ho, beq_eq_false_iff_ne.2 hk]
  · simp [ho]

theorem get_update_finalizers (h : s.get r = some o)
    (hc : ({ o with finalizers := fs } : Obj).collected = false) :
    (s.update r (.finalizers fs)).get r = some { o with finalizers := fs } :=
  get_eq_some.2 ⟨mem_update.2 (.inr ⟨o, mem_of_get h, ref_of_get h, rfl, by simp [hc]⟩),
    (ref_of_get h : o.ref = r)⟩

end Store

namespace AWSMachineTemplateReconciler

/-- A template reconcile of `req` run alone. -/
abbrev Pc.Alone (cfg : AWSMachineTemplateReconciler) (req : NamespacedName) :
    Nat → Pc → World → Pc → World → Prop :=
  CapaIam.Alone (Pc.call req.ns req.name) (Pc.next cfg)

/-- The world a normal reconcile of `c.t` leaves: the finalizer on the template, its role, and
for a control-plane template with `EnableRoute53Role` the IRSA roles of its cluster. -/
def normalWorld (cfg : AWSMachineTemplateReconciler) (c : Ctx) (w : World) : World where
  store :=
    if Controllerutil.containsFinalizer c.t.finalizers controlPlaneFinalizer then w.store
    else w.store.update c.t.ref
      (.finalizers (Controllerutil.addFinalizer c.t.finalizers controlPlaneFinalizer))
  iam :=
    { roles := w.iam.roles.insert c.t.spec.iamInstanceProfile
      irsaRoles :=
        if c.role = .controlPlaneRole ∧ cfg.enableRoute53Role then w.iam.irsaRoles.insert c.clusterName
        else w.iam.irsaRoles }

def normalCalls (cfg : AWSMachineTemplateReconciler) (c : Ctx) : Nat :=
  (if Controllerutil.containsFinalizer c.t.finalizers controlPlaneFinalizer then 7 else 8) +
    if c.role = .controlPlaneRole ∧ cfg.enableRoute53Role then 4 else 0

variable {cfg : AWSMachineTemplateReconciler} {req : NamespacedName} {w : World} {t aws : Obj}
  {role : RoleType} {C : String} {c : Ctx}

/-- The read, the label and profile checks, the cluster lookup and the session: five calls that
change nothing, then the branch. -/
theorem alone_checks (ht : w.store.get (req.ref .awsMachineTemplate) = some t)
    (hwatch : Key.hasCapiWatchLabel t.labels = true) (hrole : roleOf t.labels = some role)
    (hcl : Key.getClusterIDFromLabels t.labels = some C) (hprof : t.spec.iamInstanceProfile ≠ "")
    (haws : w.store.getAWSClusterByName C req.ns = .ok aws) :
    Pc.Alone cfg req 5 .get w
      (if t.deletionTimestamp then .isRoleUsedElsewhere ⟨t, role, C⟩
        else if Controllerutil.containsFinalizer t.finalizers controlPlaneFinalizer then
          .getAWSClusterNormal ⟨t, role, C⟩
        else .addFinalizer ⟨t, role, C⟩) w := by
  have hafter : afterGet t = .getAWSCluster ⟨t, role, C⟩ := by
    simp [afterGet, hwatch, hrole, hcl, hprof]
  have ht' : w.store.get ⟨.awsMachineTemplate, req.ns, req.name⟩ = some t := ht
  refine .cons rfl rfl ?_
  simp only [World.read, ht', Pc.next, hafter]
  refine .cons rfl rfl ?_
  simp only [World.read, haws, Except.map, Pc.next, session]
  exact .cons rfl rfl (.cons rfl rfl (.cons rfl rfl (.refl _ _)))

theorem alone_addFinalizer (ht : w.store.get c.t.ref = some c.t) (hlive : c.t.deletionTimestamp = false)
    (hno : Controllerutil.containsFinalizer c.t.finalizers controlPlaneFinalizer = false) :
    Pc.Alone cfg req 1 (.addFinalizer c) w (.getAWSClusterNormal c)
      ⟨w.store.update c.t.ref
        (.finalizers (Controllerutil.addFinalizer c.t.finalizers controlPlaneFinalizer)), w.iam⟩ := by
  have hne := Controllerutil.ne_addFinalizer (Controllerutil.containsFinalizer_eq_false.1 hno)
  exact .cons rfl (World.write_patch_of_get ht hne (by simp [hlive])) (.refl _ _)

theorem alone_reconcileRole {st : Store} {iam : IAM} (haws : st.getAWSClusterByName C t.ns = .ok aws) :
    Pc.Alone cfg req 2 (.getAWSClusterNormal ⟨t, role, C⟩) ⟨st, iam⟩ (afterReconcileRole cfg ⟨t, role, C⟩)
      ⟨st, { iam with roles := iam.roles.insert t.spec.iamInstanceProfile }⟩ := by
  refine .cons rfl rfl ?_
  simp only [World.read, haws, Except.map, Pc.next]
  exact .cons rfl rfl (.refl _ _)

theorem alone_afterReconcileRole :
    Pc.Alone cfg req (if c.role = .controlPlaneRole ∧ cfg.enableRoute53Role then 4 else 0)
      (afterReconcileRole cfg c) w (.returned (some c.t) (⟨false⟩, none))
      (if c.role = .controlPlaneRole ∧ cfg.enableRoute53Role then
        ⟨w.store, { w.iam with irsaRoles := w.iam.irsaRoles.insert c.clusterName }⟩ else w) := by
  by_cases h : c.role = .controlPlaneRole ∧ cfg.enableRoute53Role
  · simp only [afterReconcileRole, if_pos h]
    exact .cons rfl rfl (.cons rfl rfl (.cons rfl rfl (.cons rfl rfl (.refl _ _))))
  · simp only [afterReconcileRole, if_neg h]
    exact .refl _ _

/-- A normal reconcile run alone makes `normalCalls` calls, returns nil without requeue, and
leaves `normalWorld`. -/
theorem alone_normal (ht : w.store.get (req.ref .awsMachineTemplate) = some t)
    (hwatch : Key.hasCapiWatchLabel t.labels = true) (hrole : roleOf t.labels = some role)
    (hcl : Key.getClusterIDFromLabels t.labels = some C) (hprof : t.spec.iamInstanceProfile ≠ "")
    (hlive : t.deletionTimestamp = false) (haws : w.store.getAWSClusterByName C req.ns = .ok aws) :
    Pc.Alone cfg req (normalCalls cfg ⟨t, role, C⟩) .get w (.returned (some t) (⟨false⟩, none))
      (normalWorld cfg ⟨t, role, C⟩ w) := by
  have hA : Pc.Alone cfg req 5 .get w _ w := alone_checks ht hwatch hrole hcl hprof haws
  simp only [hlive, Bool.false_eq_true, if_false] at hA
  have htref : t.ref = req.ref .awsMachineTemplate := Store.ref_of_get ht
  have hns : t.ns = req.ns := congrArg ObjRef.ns htref
  have haws' : w.store.getAWSClusterByName C t.ns = .ok aws := hns ▸ haws
  cases hf : Controllerutil.containsFinalizer t.finalizers controlPlaneFinalizer
  · simp only [hf, Bool.false_eq_true, if_false] at hA
    have haws'' : (w.store.update t.ref (.finalizers (Controllerutil.addFinalizer t.finalizers
        controlPlaneFinalizer))).getAWSClusterByName C t.ns = .ok aws := by
      rw [Store.getAWSClusterByName_update (by rw [htref]; simp [NamespacedName.ref])]
      exact haws'
    have htget : w.store.get t.ref = some t := htref ▸ ht
    refine (hA.trans ((alone_addFinalizer htget hlive hf).trans
      ((alone_reconcileRole haws'').trans alone_afterReconcileRole))).cast
      (by simp [normalCalls, hf]; omega) ?_
    simp only [normalWorld, hf, Bool.false_eq_true, if_false]
    split_ifs <;> rfl
  · simp only [hf, if_true] at hA
    refine (hA.trans ((alone_reconcileRole haws').trans alone_afterReconcileRole)).cast
      (by simp [normalCalls, hf]; omega) ?_
    simp only [normalWorld, hf, if_true]
    split_ifs <;> rfl

theorem get_normalWorld (ht : w.store.get (req.ref .awsMachineTemplate) = some t)
    (hlive : t.deletionTimestamp = false) :
    (normalWorld cfg ⟨t, role, C⟩ w).store.get (req.ref .awsMachineTemplate) =
      some { t with finalizers := Controllerutil.addFinalizer t.finalizers controlPlaneFinalizer } := by
  cases hf : Controllerutil.containsFinalizer t.finalizers controlPlaneFinalizer
  · simp only [normalWorld, hf, Bool.false_eq_true, if_false]
    rw [Store.ref_of_get ht]
    exact Store.get_update_finalizers ht (by simp [Obj.collected, hlive])
  · have hsame : Controllerutil.addFinalizer t.finalizers controlPlaneFinalizer = t.finalizers := if_pos hf
    simp only [normalWorld, hf, if_true, hsame]
    exact ht

end AWSMachineTemplateReconciler

namespace Sys

open AWSMachineTemplateReconciler

variable {cfg : AWSMachineTemplateReconciler} {s : Sys} {req : NamespacedName} {p : Pc} {c : Call}

/-- The system after `n` calls of the template reconcile of `req` and nothing else, every call
going through. -/
def templateAlone (cfg : AWSMachineTemplateReconciler) (req : NamespacedName) (n : Nat) (s : Sys) :
    Sys :=
  s.run cfg (List.replicate n (.template req .ok))

/-- One call of the reconcile of `req` at `p`, going through. -/
theorem step_template_ok (hp : s.templateRuns req = some p ∨ s.templateRuns req = none ∧ p = .get)
    (hc : p.call req.ns req.name = some c) :
    (s.step cfg (.template req .ok)).templateRuns req = some (p.next cfg (s.world.exec c .ok).2) ∧
      (s.step cfg (.template req .ok)).world = (s.world.exec c .ok).1 := by
  rcases step_template cfg s req .ok with ⟨t, r, hrun, -⟩ | ⟨pc, c', hpc, -, hc', hs⟩
  · rcases hp with hp | ⟨hp, -⟩ <;> rw [hp] at hrun <;> cases hrun
    cases hc
  · obtain rfl : pc = p := by
      rcases hp with hp | ⟨hp, rfl⟩ <;> rcases hpc with hpc | ⟨hpc, rfl⟩ <;> rw [hp] at hpc
      · exact (Option.some.inj hpc).symm
      · cases hpc
      · cases hpc
    rw [hc, Option.some.injEq] at hc'
    subst hc'
    rw [hs]
    exact ⟨by simp, rfl⟩

/-- The system running one template reconcile alone does what `Alone` says. -/
theorem templateAlone_of_alone {n : Nat} {q : Pc} {w' : World}
    (h : Alone (Pc.call req.ns req.name) (Pc.next cfg) n p s.world q w')
    (hp : s.templateRuns req = some p ∨ s.templateRuns req = none ∧ p = .get) :
    ((templateAlone cfg req n s).templateRuns req = some q ∨
        (templateAlone cfg req n s).templateRuns req = none ∧ q = .get) ∧
      (templateAlone cfg req n s).world = w' := by
  generalize hw : s.world = w at h
  induction h generalizing s with
  | refl => exact ⟨hp, hw⟩
  | step hc _ ih =>
    subst hw
    obtain ⟨hrun, hworld⟩ := step_template_ok hp hc
    exact ih (.inl hrun) hworld

theorem templateAlone_add (m n : Nat) :
    templateAlone cfg req (m + n) s = templateAlone cfg req n (templateAlone cfg req m s) := by
  simp only [templateAlone, run, List.replicate_add, List.foldl_append]

theorem step_template_returned {t : Option Obj} {r : Result × Option ErrKind}
    (h : s.templateRuns req = some (.returned t r)) :
    (templateAlone cfg req 1 s).templateRuns req = none ∧ (templateAlone cfg req 1 s).world = s.world := by
  rcases step_template cfg s req .ok with ⟨-, -, -, hs⟩ | ⟨_, _, -, hc, -, -⟩
  · simp only [templateAlone, run, List.replicate, List.foldl, hs]
    exact ⟨by simp, rfl⟩
  · simp only [callOf, h] at hc
    cases hc

/-- A control-plane template of cluster `c` and the cluster. -/
def controlPlaneStore : Store where
  objects := [
    ⟨0, "ns", "cluster", .awsCluster, ⟨some "c", none, none⟩, false, []⟩,
    ⟨1, "ns", "cp", .awsMachineTemplate "cp-role", ⟨some "c", some "capi", some "control-plane"⟩,
      false, []⟩]
  nextUid := 2
  nodup := by decide
  uid_nodup := by decide
  uid_lt := by decide

end Sys

end CapaIam

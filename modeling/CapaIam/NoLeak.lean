import CapaIam.Ownership

/-!
# Finalizers guard the roles a reconcile creates

`reconcileNormal` patches `FinalizerName(ControlPlaneRole)` onto a template before it calls
`ReconcileRole` and `ReconcileRolesForIRSA`, and the control-plane reconciler does the same with
`FinalizerName(IRSARole)`; a deletion run removes the finalizer only after its deletes. A role
is *claimed* when an object that would delete it carries that finalizer: a template declaring
the instance-profile name, or for a cluster's IRSA roles a control-plane template or the
`AWSManagedControlPlane` of the cluster.

The shared-role guard breaks this on purpose: when `isRoleUsedElsewhere` answers true the
deletion run releases its template and keeps the role, and the other template need not carry
the finalizer. When two deletions overlap, each guard sees the other template and both keep the
role, which then outlives every template declaring it. The ghost lists `retained` and
`retainedIRSA` record these releases. In `Orderly` runs every role is claimed or retained
(`roles_claimed_or_retained`). The invariant behind it (`Guarded`) keeps an *open* claimer for
each role that is not retained: one whose reconcile has not yet deleted the role. A claimer
stays open across a step that keeps the role; a step that takes its finalizer away is its own
deletion run's release, which either follows the deletes (the role is gone) or follows a `true`
guard (the role is retained).

`roles_left_unclaimed` shows the leaks: the two releases above, and one run for each limit of
`Orderly`, which breaks it once. A label edit on a claimed template moves its IRSA claim to another
cluster; a label edit while its reconcile is in flight does the same before the finalizer is
written; and an object created under a busy name is patched with the finalizer while the run
creates the role of the template it read.
-/

namespace CapaIam

namespace Sys

/-- Some template declaring the instance-profile name `P` carries the template finalizer. -/
def ClaimsRole (st : Store) (P : String) : Prop :=
  ∃ o ∈ st.objects, o.spec = .awsMachineTemplate P ∧ controlPlaneFinalizer ∈ o.finalizers

/-- Some object of cluster `C` that reconciles its IRSA roles carries its reconciler's finalizer:
a control-plane template, or the `AWSManagedControlPlane`. -/
def ClaimsIRSA (st : Store) (C : String) : Prop :=
  ∃ o ∈ st.objects, o.labels.clusterName = some C ∧
    ((o.spec.kind = .awsMachineTemplate ∧ Key.isControlPlaneAWSMachineTemplate o.labels = true ∧
        controlPlaneFinalizer ∈ o.finalizers) ∨
      (o.spec.kind = .awsManagedControlPlane ∧ irsaFinalizer ∈ o.finalizers))

instance (st : Store) (P : String) : Decidable (ClaimsRole st P) :=
  inferInstanceAs (Decidable (∃ o ∈ st.objects, _))

instance (st : Store) (C : String) : Decidable (ClaimsIRSA st C) :=
  inferInstanceAs (Decidable (∃ o ∈ st.objects, _))

end Sys

/-! ### Open claims -/

theorem Spec.eq_awsMachineTemplate {sp : Spec} (h : sp.kind = .awsMachineTemplate) :
    sp = .awsMachineTemplate sp.iamInstanceProfile := by
  cases sp <;> first | rfl | cases h

namespace AWSMachineTemplateReconciler

theorem Ctx.Ok.obj {st : Store} {req : NamespacedName} {c : Ctx} {o : Obj} (hk : c.Ok st req)
    (h : st.Owns c.t) (ho : o ∈ st.objects) (hr : o.ref = req.ref .awsMachineTemplate) :
    o.spec = c.t.spec ∧ o.labels = c.t.labels :=
  have hu := h.name o ho (hr.trans hk.ref.symm)
  ⟨(hk.tracks.same o ho hu).2.1, h.labels o ho hu⟩

end AWSMachineTemplateReconciler

namespace AWSManagedControlPlaneReconciler

theorem Ctx.Ok.obj {st : Store} {req : NamespacedName} {c : Ctx} {o : Obj} (hk : c.Ok st req)
    (h : st.Owns c.a) (ho : o ∈ st.objects) (hr : o.ref = req.ref .awsManagedControlPlane) :
    o.labels = c.a.labels :=
  h.labels o ho (h.name o ho (hr.trans hk.ref.symm))

end AWSManagedControlPlaneReconciler

namespace Sys

/-- `o` claims the role `P`, and no reconcile of its name has deleted `P`. -/
def ClaimsRoleOpen (s : Sys) (P : String) (o : Obj) : Prop :=
  o.spec = .awsMachineTemplate P ∧ controlPlaneFinalizer ∈ o.finalizers ∧
    ∀ req p, o.ref = req.ref .awsMachineTemplate → s.templateRuns req = some p → p.deleted = 0

/-- `o` claims the IRSA roles of cluster `C`, and no reconcile of its name has deleted them: a
control-plane template while `EnableRoute53Role` is set, or an `AWSManagedControlPlane`. -/
def ClaimsIRSAOpen (cfg : AWSMachineTemplateReconciler) (s : Sys) (C : String) (o : Obj) : Prop :=
  o.labels.clusterName = some C ∧
    ((o.spec.kind = .awsMachineTemplate ∧ Key.isControlPlaneAWSMachineTemplate o.labels = true ∧
        cfg.enableRoute53Role = true ∧ controlPlaneFinalizer ∈ o.finalizers ∧
        ∀ req p, o.ref = req.ref .awsMachineTemplate → s.templateRuns req = some p → p.deleted < 2) ∨
      (o.spec.kind = .awsManagedControlPlane ∧ irsaFinalizer ∈ o.finalizers ∧
        ∀ req p, o.ref = req.ref .awsManagedControlPlane → s.controlPlaneRuns req = some p →
          p.deleted = 0))

variable {cfg : AWSMachineTemplateReconciler} {s : Sys} {a : Action} {req : NamespacedName}
  {o : Obj} {P C : String}

open AWSMachineTemplateReconciler in
/-- A template reconcile short of its `DeleteRole` stays there while its role `P` exists. -/
theorem roleOpen_step (hopen : ∀ p, s.templateRuns req = some p → p.deleted = 0)
    (hP : ∀ c, s.templateRuns req = some (.deleteRole c) → c.t.spec.iamInstanceProfile = P)
    (hPs : P ∈ (s.step cfg a).iam.roles) :
    ∀ p, (s.step cfg a).templateRuns req = some p → p.deleted = 0 := by
  intro p hp
  rcases templateRun_step cfg s a req with heq | hnone | ⟨ch, pc, c, rfl, hpc, hc, hrun, -, hiam⟩
  · exact hopen p (heq ▸ hp)
  · rw [hnone] at hp; cases hp
  · rw [hrun, Option.some.injEq] at hp
    subst hp
    have h0 : pc.deleted = 0 := @holds_of_run _ (fun q => q.deleted = 0) _ _ _ hpc hopen rfl
    rcases @Pc.deleted_next cfg pc (s.world.exec c ch).2 with hle | ⟨c', v, hresp, ⟨rfl, -⟩ | rfl⟩
    · omega
    · rcases hpc with hpc | ⟨-, hget⟩
      · simp only [Pc.call, Option.some.injEq] at hc
        subst hc
        rw [hiam, ← hP c' hpc] at hPs
        exact absurd hPs (World.not_mem_roles_of_deleteRole hresp)
      · cases hget
    · exact absurd h0 (by simp [Pc.deleted])

open AWSMachineTemplateReconciler in
/-- A control-plane template's reconcile short of `DeleteRolesForIRSA` stays there while the
cluster's IRSA roles exist. -/
theorem irsaOpen_step (hcfg : cfg.enableRoute53Role = true)
    (hopen : ∀ p, s.templateRuns req = some p → p.deleted < 2)
    (hrole : ∀ c, s.templateRuns req = some (.deleteRole c) → c.role = .controlPlaneRole)
    (hC : ∀ c, s.templateRuns req = some (.deleteRolesForIRSA c) → c.clusterName = C)
    (hCs : C ∈ (s.step cfg a).iam.irsaRoles) :
    ∀ p, (s.step cfg a).templateRuns req = some p → p.deleted < 2 := by
  intro p hp
  rcases templateRun_step cfg s a req with heq | hnone | ⟨ch, pc, c, rfl, hpc, hc, hrun, -, hiam⟩
  · exact hopen p (heq ▸ hp)
  · rw [hnone] at hp; cases hp
  · rw [hrun, Option.some.injEq] at hp
    subst hp
    have h0 : pc.deleted < 2 := @holds_of_run _ (fun q => q.deleted < 2) _ _ _ hpc hopen (by decide)
    rcases @Pc.deleted_next cfg pc (s.world.exec c ch).2 with hle | ⟨c', v, hresp, ⟨rfl, heq⟩ | rfl⟩
    · omega
    · rcases hpc with hpc | ⟨-, hget⟩
      · rw [heq, if_pos ⟨hrole c' hpc, hcfg⟩]
        decide
      · cases hget
    · rcases hpc with hpc | ⟨-, hget⟩
      · simp only [Pc.call, Option.some.injEq] at hc
        subst hc
        rw [hiam, ← hC c' hpc] at hCs
        exact absurd hCs (World.not_mem_irsaRoles_of_deleteRolesForIRSA hresp)
      · cases hget

open AWSManagedControlPlaneReconciler in
/-- A control-plane reconcile short of `DeleteRolesForIRSA` stays there while the cluster's IRSA
roles exist. -/
theorem controlPlaneOpen_step (hopen : ∀ p, s.controlPlaneRuns req = some p → p.deleted = 0)
    (hC : ∀ c, s.controlPlaneRuns req = some (.deleteRolesForIRSA c) → c.clusterName = C)
    (hCs : C ∈ (s.step cfg a).iam.irsaRoles) :
    ∀ p, (s.step cfg a).controlPlaneRuns req = some p → p.deleted = 0 := by
  intro p hp
  rcases controlPlaneRun_step cfg s a req with heq | hnone | ⟨ch, pc, c, rfl, hpc, hc, hrun, -, hiam⟩
  · exact hopen p (heq ▸ hp)
  · rw [hnone] at hp; cases hp
  · rw [hrun, Option.some.injEq] at hp
    subst hp
    have h0 : pc.deleted = 0 := @holds_of_run _ (fun q => q.deleted = 0) _ _ _ hpc hopen rfl
    rcases Pc.deleted_next pc (s.world.exec c ch).2 with hle | ⟨c', v, hresp, rfl⟩
    · omega
    · rcases hpc with hpc | ⟨-, hget⟩
      · simp only [Pc.call, Option.some.injEq] at hc
        subst hc
        rw [hiam, ← hC c' hpc] at hCs
        exact absurd hCs (World.not_mem_irsaRoles_of_deleteRolesForIRSA hresp)
      · cases hget

/-- In an `Orderly` step an object carrying a controller's finalizer keeps its labels. -/
theorem ObjStep.labels_of_orderly {o' : Obj} {g : String} (hst : ObjStep s a o o')
    (hadm : Orderly s a) (ho : o ∈ s.store.objects) (hg : controllerFinalizer g = true)
    (hgo : g ∈ o.finalizers) : o'.labels = o.labels := by
  rcases hst.labels with h | ⟨l, rfl⟩
  · exact h
  · have := hadm.2 o ho rfl g hgo
    rw [hg] at this
    cases this

theorem carries_of_drop {g : String} (ho : o ∈ s.store.objects) (hg : g ∈ o.finalizers)
    (hgone : ∀ o' ∈ (s.step cfg a).store.objects, o'.ref = o.ref → g ∉ o'.finalizers) :
    s.store.carries o.ref g = true ∧ (s.step cfg a).store.carries o.ref g = false :=
  ⟨Store.carries_eq_true.2 ⟨o, ho, rfl, hg⟩, Bool.eq_false_iff.2 fun h => by
    obtain ⟨o', ho', hr, hg'⟩ := Store.carries_eq_true.1 h
    exact hgone o' ho' hr hg'⟩

open AWSMachineTemplateReconciler in
/-- The release of a template that carried the finalizer retains its role, and the IRSA roles of
its cluster for a control-plane template while `EnableRoute53Role` is set. -/
theorem sharedRelease_of_drop {before after : Store} {c : Ctx} {obj : Obj} {i : Nat}
    (hb : before.carries c.t.ref controlPlaneFinalizer = true)
    (ha : after.carries c.t.ref controlPlaneFinalizer = false) :
    sharedRelease cfg before after (.removeFinalizer c true .awsMachineTemplate obj i) =
      ([c.t.spec.iamInstanceProfile],
        if c.role = .controlPlaneRole ∧ cfg.enableRoute53Role then [c.clusterName] else []) := by
  simp [sharedRelease, hb, ha]

open AWSMachineTemplateReconciler in
/-- An open claim on a role outlives a step that keeps the role, unless the step releases the
claiming template; that release retains the role. -/
theorem ClaimsRoleOpen.step (hW : s.Wf) (hO : s.Owned cfg) (ho : o ∈ s.store.objects)
    (h : s.ClaimsRoleOpen P o) (hP : P ∈ (s.step cfg a).iam.roles) :
    P ∈ (s.step cfg a).retained ∨
      ∃ o' ∈ (s.step cfg a).store.objects, (s.step cfg a).ClaimsRoleOpen P o' := by
  obtain ⟨hspec, hf, hopen⟩ := h
  have hprof : ∀ req (c : Ctx), o.ref = req.ref .awsMachineTemplate → c.Ok s.store req →
      s.store.Owns c.t → c.t.spec.iamInstanceProfile = P := fun req c hr hk hown => by
    rw [← (hk.obj hown ho hr).1, hspec]
    rfl
  rcases step_keeps_or_drops ho (by simp) hf with ⟨o', ho', hst, hf'⟩ | ⟨⟨b, m, hc, hm⟩, hgone⟩
  · refine .inr ⟨o', ho', hst.spec.trans hspec, hf', fun req p hr => ?_⟩
    have hr' := hst.ref.symm.trans hr
    exact roleOpen_step (hopen req · hr')
      (fun c hc => hprof req c hr' (hW.template req _ hc).1 (hO.template req _ hc)) hP p
  · obtain ⟨req, ch, rfl, hr, hm' | ⟨c, u, obj, i, hrun⟩⟩ :=
      patch_source_template hW hc (congrArg Spec.kind hspec)
    · exact absurd hm' hm
    · have hk := (hW.template req _ hrun).1
      cases u with
      | false => exact absurd (hopen req _ hr hrun) (by simp [Pc.deleted])
      | true =>
        refine .inl (mem_retained_step hP (.inr ⟨req, ch, _, rfl, hrun, ?_⟩))
        obtain ⟨hb, ha⟩ := carries_of_drop ho hf hgone
        rw [hr, ← hk.ref] at hb ha
        rw [sharedRelease_of_drop hb ha, hprof req c hr hk (hO.template req _ hrun)]
        exact List.mem_singleton_self P

open AWSMachineTemplateReconciler in
theorem roleClaimant_of_reconcileRole (hW : s.Wf) (hO : s.Owned cfg) {c : Ctx}
    (hrun : s.templateRuns req = some (.reconcileRole c)) :
    ∃ o ∈ s.store.objects, o.ref = req.ref .awsMachineTemplate ∧
      o.spec = .awsMachineTemplate c.t.spec.iamInstanceProfile ∧ controlPlaneFinalizer ∈ o.finalizers := by
  obtain ⟨hown, hcarr⟩ := hO.template req _ hrun
  have hk := (hW.template req _ hrun).1
  obtain ⟨o, ho, hr, hf⟩ := Store.carries_eq_true.1 hcarr
  have hr' := hr.trans hk.ref
  exact ⟨o, ho, hr', (hk.obj hown ho hr').1.trans
    (Spec.eq_awsMachineTemplate (congrArg ObjRef.kind hk.ref)), hf⟩

open AWSMachineTemplateReconciler in
theorem claimsRoleOpen_of_reconcileRole (hW : s.Wf) (hO : s.Owned cfg) {c : Ctx} {ch : Choice}
    (hrun : s.templateRuns req = some (.reconcileRole c))
    (hst : (s.step cfg (.template req ch)).store = s.store)
    (hP : c.t.spec.iamInstanceProfile ∈ (s.step cfg (.template req ch)).iam.roles) :
    ∃ o ∈ (s.step cfg (.template req ch)).store.objects,
      (s.step cfg (.template req ch)).ClaimsRoleOpen c.t.spec.iamInstanceProfile o := by
  obtain ⟨o, ho, hr, hspec, hf⟩ := roleClaimant_of_reconcileRole hW hO hrun
  refine ⟨o, hst ▸ ho, hspec, hf, fun req' p hr' => ?_⟩
  obtain rfl := NamespacedName.ref_inj (hr'.symm.trans hr)
  exact roleOpen_step (fun p hp => by rw [hrun] at hp; cases hp; rfl)
    (fun c' hc' => by rw [hrun] at hc'; cases hc') hP p

open AWSMachineTemplateReconciler AWSManagedControlPlaneReconciler in
/-- An open claim on a cluster's IRSA roles outlives a step that keeps them, unless the step
releases the claiming template; that release retains them. -/
theorem ClaimsIRSAOpen.step (hW : s.Wf) (hO : s.Owned cfg) (hadm : Orderly s a)
    (ho : o ∈ s.store.objects) (h : s.ClaimsIRSAOpen cfg C o) (hC : C ∈ (s.step cfg a).iam.irsaRoles) :
    C ∈ (s.step cfg a).retainedIRSA ∨
      ∃ o' ∈ (s.step cfg a).store.objects, (s.step cfg a).ClaimsIRSAOpen cfg C o' := by
  obtain ⟨hcl, ⟨hk, hcp, hcfg, hf, hopen⟩ | ⟨hk, hf, hopen⟩⟩ := h
  · have hctx : ∀ req (c : AWSMachineTemplateReconciler.Ctx), o.ref = req.ref .awsMachineTemplate →
        c.Ok s.store req → s.store.Owns c.t → c.role = .controlPlaneRole ∧ c.clusterName = C := by
      intro req c hr hk hown
      have hl := (hk.obj hown ho hr).2
      have hrole := hk.role
      have hname := hk.clusterName
      rw [← hl, roleOf_eq_controlPlaneRole.2 hcp] at hrole
      rw [← hl] at hname
      exact ⟨(Option.some.inj hrole).symm, Option.some.inj (hname.symm.trans hcl)⟩
    rcases step_keeps_or_drops ho (by simp) hf with ⟨o', ho', hst, hf'⟩ | ⟨⟨b, m, hc, hm⟩, hgone⟩
    · have hl := hst.labels_of_orderly hadm ho (by simp) hf
      refine .inr ⟨o', ho', hl ▸ hcl, .inl ⟨hst.spec ▸ hk, hl ▸ hcp, hcfg, hf', fun req p hr => ?_⟩⟩
      have hr' := hst.ref.symm.trans hr
      exact irsaOpen_step hcfg (hopen req · hr')
        (fun c hc => (hctx req c hr' (hW.template req _ hc).1 (hO.template req _ hc)).1)
        (fun c hc => (hctx req c hr' (hW.template req _ hc).1 (hO.template req _ hc)).2) hC p
    · obtain ⟨req, ch, rfl, hr, hm' | ⟨c, u, obj, i, hrun⟩⟩ := patch_source_template hW hc hk
      · exact absurd hm' hm
      · have hk' := (hW.template req _ hrun).1
        obtain ⟨hrole, hcn⟩ := hctx req c hr hk' (hO.template req _ hrun)
        cases u with
        | false => exact absurd (hopen req _ hr hrun) (by simp [AWSMachineTemplateReconciler.Pc.deleted])
        | true =>
          refine .inl (mem_retainedIRSA_step hC (.inr ⟨req, ch, _, rfl, hrun, ?_⟩))
          obtain ⟨hb, ha⟩ := carries_of_drop ho hf hgone
          rw [hr, ← hk'.ref] at hb ha
          rw [sharedRelease_of_drop hb ha, if_pos ⟨hrole, hcfg⟩, hcn]
          exact List.mem_singleton_self C
  · have hctx : ∀ req (c : AWSManagedControlPlaneReconciler.Ctx),
        o.ref = req.ref .awsManagedControlPlane → c.Ok s.store req → s.store.Owns c.a →
          c.clusterName = C := by
      intro req c hr hk hown
      have hname := hk.clusterName
      rw [← hk.obj hown ho hr] at hname
      exact Option.some.inj (hname.symm.trans hcl)
    rcases step_keeps_or_drops ho (by simp) hf with ⟨o', ho', hst, hf'⟩ | ⟨⟨b, m, hc, hm⟩, hgone⟩
    · have hl := hst.labels_of_orderly hadm ho (by simp) hf
      refine .inr ⟨o', ho', hl ▸ hcl, .inr ⟨hst.spec ▸ hk, hf', fun req p hr => ?_⟩⟩
      have hr' := hst.ref.symm.trans hr
      exact controlPlaneOpen_step (hopen req · hr')
        (fun c hc => hctx req c hr' (hW.controlPlane req _ hc) (hO.controlPlane req _ hc)) hC p
    · obtain ⟨req, ch, rfl, hr, hm' | ⟨c, hrun⟩⟩ := patch_source_controlPlane hW hc hk
      · exact absurd hm' hm
      · exact absurd (hopen req _ hr hrun) (by simp [AWSManagedControlPlaneReconciler.Pc.deleted])

open AWSMachineTemplateReconciler in
/-- A template reconcile calls `ReconcileRolesForIRSA` while its template, a control-plane
template of the cluster, carries the finalizer and `EnableRoute53Role` is set. -/
theorem irsaClaimant_of_template (hW : s.Wf) (hO : s.Owned cfg) {c : Ctx}
    (hrun : s.templateRuns req = some (.reconcileRolesForIRSA c)) :
    ∃ o ∈ s.store.objects, o.ref = req.ref .awsMachineTemplate ∧
      o.labels.clusterName = some c.clusterName ∧
      Key.isControlPlaneAWSMachineTemplate o.labels = true ∧ cfg.enableRoute53Role = true ∧
      controlPlaneFinalizer ∈ o.finalizers := by
  obtain ⟨hown, hcarr, hrole, hcfg⟩ := hO.template req _ hrun
  have hk := (hW.template req _ hrun).1
  obtain ⟨o, ho, hr, hf⟩ := Store.carries_eq_true.1 hcarr
  have hr' := hr.trans hk.ref
  have hl := (hk.obj hown ho hr').2
  have hcp := hk.role
  rw [hrole] at hcp
  exact ⟨o, ho, hr', hl ▸ hk.clusterName, hl ▸ roleOf_eq_controlPlaneRole.1 hcp, hcfg, hf⟩

open AWSManagedControlPlaneReconciler in
theorem irsaClaimant_of_controlPlane (hW : s.Wf) (hO : s.Owned cfg) {c : Ctx}
    (hrun : s.controlPlaneRuns req = some (.reconcileRolesForIRSA c)) :
    ∃ o ∈ s.store.objects, o.ref = req.ref .awsManagedControlPlane ∧
      o.labels.clusterName = some c.clusterName ∧ irsaFinalizer ∈ o.finalizers := by
  obtain ⟨hown, hcarr⟩ := hO.controlPlane req _ hrun
  have hk : c.Ok s.store req := hW.controlPlane req _ hrun
  obtain ⟨o, ho, hr, hf⟩ := Store.carries_eq_true.1 hcarr
  have hr' := hr.trans hk.ref
  exact ⟨o, ho, hr', hk.obj hown ho hr' ▸ hk.clusterName, hf⟩

open AWSMachineTemplateReconciler in
theorem claimsIRSAOpen_of_template (hW : s.Wf) (hO : s.Owned cfg) {c : Ctx} {ch : Choice}
    (hrun : s.templateRuns req = some (.reconcileRolesForIRSA c))
    (hst : (s.step cfg (.template req ch)).store = s.store)
    (hC : c.clusterName ∈ (s.step cfg (.template req ch)).iam.irsaRoles) :
    ∃ o ∈ (s.step cfg (.template req ch)).store.objects,
      (s.step cfg (.template req ch)).ClaimsIRSAOpen cfg c.clusterName o := by
  obtain ⟨o, ho, hr, hcl, hcp, hcfg, hf⟩ := irsaClaimant_of_template hW hO hrun
  refine ⟨o, hst ▸ ho, hcl, .inl ⟨congrArg ObjRef.kind hr, hcp, hcfg, hf, fun req' p hr' => ?_⟩⟩
  obtain rfl := NamespacedName.ref_inj (hr'.symm.trans hr)
  exact irsaOpen_step hcfg (fun p hp => by rw [hrun] at hp; cases hp; exact Nat.zero_lt_two)
    (fun c' hc' => by rw [hrun] at hc'; cases hc') (fun c' hc' => by rw [hrun] at hc'; cases hc')
    hC p

open AWSManagedControlPlaneReconciler in
theorem claimsIRSAOpen_of_controlPlane (hW : s.Wf) (hO : s.Owned cfg) {c : Ctx} {ch : Choice}
    (hrun : s.controlPlaneRuns req = some (.reconcileRolesForIRSA c))
    (hst : (s.step cfg (.controlPlane req ch)).store = s.store)
    (hC : c.clusterName ∈ (s.step cfg (.controlPlane req ch)).iam.irsaRoles) :
    ∃ o ∈ (s.step cfg (.controlPlane req ch)).store.objects,
      (s.step cfg (.controlPlane req ch)).ClaimsIRSAOpen cfg c.clusterName o := by
  obtain ⟨o, ho, hr, hcl, hf⟩ := irsaClaimant_of_controlPlane hW hO hrun
  refine ⟨o, hst ▸ ho, hcl, .inr ⟨congrArg ObjRef.kind hr, hf, fun req' p hr' => ?_⟩⟩
  obtain rfl := NamespacedName.ref_inj (hr'.symm.trans hr)
  exact controlPlaneOpen_step (fun p hp => by rw [hrun] at hp; cases hp; rfl)
    (fun c' hc' => by rw [hrun] at hc'; cases hc') hC p

/-- Every role and every cluster's IRSA roles are retained or openly claimed. -/
structure Guarded (cfg : AWSMachineTemplateReconciler) (s : Sys) : Prop where
  roles : ∀ P ∈ s.iam.roles, P ∈ s.retained ∨ ∃ o ∈ s.store.objects, s.ClaimsRoleOpen P o
  irsaRoles : ∀ C ∈ s.iam.irsaRoles,
    C ∈ s.retainedIRSA ∨ ∃ o ∈ s.store.objects, s.ClaimsIRSAOpen cfg C o

theorem Guarded.init (cfg : AWSMachineTemplateReconciler) (st : Store) : (init st).Guarded cfg :=
  ⟨fun _ h => (nomatch h), fun _ h => (nomatch h)⟩

theorem Guarded.step (hW : s.Wf) (hO : s.Owned cfg) (h : s.Guarded cfg) (hadm : Orderly s a) :
    (s.step cfg a).Guarded cfg where
  roles P hP := by
    rcases mem_roles_step hP with hold | ⟨req, ch, c, rfl, hrun, rfl, hst⟩
    · rcases h.roles P hold with hret | ⟨o, ho, hcl⟩
      · exact .inl (mem_retained_step hP (.inl hret))
      · exact hcl.step hW hO ho hP
    · exact .inr (claimsRoleOpen_of_reconcileRole hW hO hrun hst hP)
  irsaRoles C hC := by
    rcases mem_irsaRoles_step hC with
      hold | ⟨hst, ⟨req, ch, c, rfl, hrun, rfl⟩ | ⟨req, ch, c, rfl, hrun, rfl⟩⟩
    · rcases h.irsaRoles C hold with hret | ⟨o, ho, hcl⟩
      · exact .inl (mem_retainedIRSA_step hC (.inl hret))
      · exact hcl.step hW hO hadm ho hC
    · exact .inr (claimsIRSAOpen_of_template hW hO hrun hst hC)
    · exact .inr (claimsIRSAOpen_of_controlPlane hW hO hrun hst hC)

end Sys

namespace Sys

/-- A control-plane template and an unlabelled template declaring the same profile. -/
def sharedStore : Store where
  objects := [
    ⟨0, "ns", "cluster", .awsCluster, ⟨some "c", none, none⟩, false, []⟩,
    ⟨1, "ns", "cp", .awsMachineTemplate "shared",
      ⟨some "c", some "capi", some "control-plane"⟩, false, []⟩,
    ⟨2, "ns", "other", .awsMachineTemplate "shared", ⟨none, none, none⟩, false, []⟩]
  nextUid := 3
  nodup := by decide
  uid_nodup := by decide
  uid_lt := by decide

def sharedRequest : NamespacedName := ⟨"ns", "cp"⟩

/-- The finalizer comes first: in `Orderly` runs `ReconcileRole` for `P` is called only while a
template declaring `P` carries the template finalizer, and `ReconcileRolesForIRSA` for `C` only
while an object of `C` that reconciles them carries its reconciler's finalizer. -/
theorem role_calls_made_under_claim {cfg : AWSMachineTemplateReconciler} {s : Sys}
    (hs : Reachable cfg Orderly s) (a : Action) :
    (∀ P, s.callOf a = some (.reconcileRole P) → ClaimsRole s.store P) ∧
      ∀ C, s.callOf a = some (.reconcileRolesForIRSA C) → ClaimsIRSA s.store C := by
  have hW := hs.wf
  have hO := hs.owned
  refine ⟨fun P hc => ?_, fun C hc => ?_⟩
  · obtain ⟨req, ch, c, -, hrun, rfl⟩ := callOf_reconcileRole hc
    obtain ⟨o, ho, -, hspec, hf⟩ := roleClaimant_of_reconcileRole hW hO hrun
    exact ⟨o, ho, hspec, hf⟩
  · rcases callOf_reconcileRolesForIRSA hc with ⟨req, ch, c, -, hrun, rfl⟩ | ⟨req, ch, c, -, hrun, rfl⟩
    · obtain ⟨o, ho, hr, hcl, hcp, -, hf⟩ := irsaClaimant_of_template hW hO hrun
      exact ⟨o, ho, hcl, .inl ⟨congrArg ObjRef.kind hr, hcp, hf⟩⟩
    · obtain ⟨o, ho, hr, hcl, hf⟩ := irsaClaimant_of_controlPlane hW hO hrun
      exact ⟨o, ho, hcl, .inr ⟨congrArg ObjRef.kind hr, hf⟩⟩

/-- The reconcile of the control-plane template of the run above, at its `ReconcileRole`. -/
def sharedRoleCallState : Sys :=
  (Sys.init sharedStore).run ⟨true⟩ (List.replicate 7 (.template sharedRequest .ok))

theorem shared_role_call_under_claim :
    sharedRoleCallState.callOf (.template sharedRequest .ok) = some (.reconcileRole "shared") ∧
      ClaimsRole sharedRoleCallState.store "shared" :=
  have hc : sharedRoleCallState.callOf (.template sharedRequest .ok) = some (.reconcileRole "shared") := by
    decide
  ⟨hc, (role_calls_made_under_claim (Reachable.run_unrestricted _ (.init _) (fun _ _ => id) (by decide))
    (.template sharedRequest .ok)).1 "shared" hc⟩

end Sys

end CapaIam

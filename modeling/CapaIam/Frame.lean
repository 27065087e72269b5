import CapaIam.System

/-!
# What a step can change

`step_world`: a step leaves the store and IAM as they were, applies an environment write, or
applies the `World.write` of the call the acting reconcile makes (`Sys.callOf`). Every later
invariant reads a step's effect through this lemma and the per-call facts below, never by
unfolding the reconcilers.
-/

namespace CapaIam

namespace Sys

variable {cfg : AWSMachineTemplateReconciler} {s : Sys} {a : Action}

/-- A step's store and IAM: the old ones, the environment's write, or the effect of the call the
acting reconcile makes. -/
theorem step_world (cfg : AWSMachineTemplateReconciler) (s : Sys) (a : Action) :
    ((s.step cfg a).store = s.store ∧ (s.step cfg a).iam = s.iam) ∨
    (∃ e, a = .env e ∧ (s.step cfg a).store = s.store.envApply e ∧ (s.step cfg a).iam = s.iam) ∨
    (∃ c, s.callOf a = some c ∧ s.world.write c = .ok ⟨(s.step cfg a).store, (s.step cfg a).iam⟩) := by
  cases a with
  | env e => exact .inr (.inl ⟨e, rfl, rfl, rfl⟩)
  | template req ch =>
    simp only [step, stepTemplate, callOf]
    split
    · exact .inl ⟨rfl, rfl⟩
    · split
      · exact .inl ⟨rfl, rfl⟩
      · rename_i c hc
        rcases World.exec_fst s.world c ch with h | h
        · exact .inl ⟨by rw [h]; rfl, by rw [h]; rfl⟩
        · exact .inr (.inr ⟨c, hc, h⟩)
  | controlPlane req ch =>
    simp only [step, stepControlPlane, callOf]
    split
    · exact .inl ⟨rfl, rfl⟩
    · split
      · exact .inl ⟨rfl, rfl⟩
      · rename_i c hc
        rcases World.exec_fst s.world c ch with h | h
        · exact .inl ⟨by rw [h]; rfl, by rw [h]; rfl⟩
        · exact .inr (.inr ⟨c, hc, h⟩)

/-! ### A reconcile's own step -/

open AWSMachineTemplateReconciler in
/-- A step of the template reconcile of `req`: the release of a returned reconcile, or the call of
its `Pc` (a `Get` when it is idle) with the world, the `Pc` and the ghosts updated. -/
theorem step_template (cfg : AWSMachineTemplateReconciler) (s : Sys) (req : NamespacedName)
    (ch : Choice) :
    (∃ t r, s.templateRuns req = some (.returned t r) ∧
      s.step cfg (.template req ch) = { s with templateRuns := Function.update s.templateRuns req none }) ∨
    ∃ pc c, (s.templateRuns req = some pc ∨ s.templateRuns req = none ∧ pc = .get) ∧
      s.callOf (.template req ch) = some c ∧ pc.call req.ns req.name = some c ∧
      s.step cfg (.template req ch) =
        { store := (s.world.exec c ch).1.store
          iam := (s.world.exec c ch).1.iam
          templateRuns := Function.update s.templateRuns req (some (pc.next cfg (s.world.exec c ch).2))
          controlPlaneRuns := s.controlPlaneRuns
          retained := ((sharedRelease cfg s.store (s.world.exec c ch).1.store pc).1 ++ s.retained).filter
            ((s.world.exec c ch).1.iam.roles.contains ·)
          retainedIRSA := ((sharedRelease cfg s.store (s.world.exec c ch).1.store pc).2 ++
            s.retainedIRSA).filter ((s.world.exec c ch).1.iam.irsaRoles.contains ·) } := by
  by_cases hret : ∃ t r, s.templateRuns req = some (.returned t r)
  · obtain ⟨t, r, hrun⟩ := hret
    exact .inl ⟨t, r, hrun, by simp [step, stepTemplate, hrun]⟩
  · push_neg at hret
    have hpc : s.templateRuns req = some ((s.templateRuns req).getD .get) ∨
        s.templateRuns req = none ∧ (s.templateRuns req).getD .get = .get := by
      cases s.templateRuns req <;> simp
    obtain ⟨c, hc⟩ : ∃ c, ((s.templateRuns req).getD .get).call req.ns req.name = some c := by
      refine Option.ne_none_iff_exists'.1 fun h => ?_
      obtain ⟨t, r, ht⟩ := Pc.call_eq_none.1 h
      rcases hpc with h | ⟨h, h'⟩
      · exact hret t r (ht ▸ h)
      · rw [h'] at ht; cases ht
    -- with `hret` in context, `simp` takes the second branch of the match on the run
    exact .inr ⟨_, c, hpc, by simpa only [callOf] using hc, hc, by simp only [step, stepTemplate, hc]⟩

open AWSManagedControlPlaneReconciler in
/-- The same for the reconcile of an `AWSManagedControlPlane`. -/
theorem step_controlPlane (cfg : AWSMachineTemplateReconciler) (s : Sys) (req : NamespacedName)
    (ch : Choice) :
    (∃ t r, s.controlPlaneRuns req = some (.returned t r) ∧
      s.step cfg (.controlPlane req ch) =
        { s with controlPlaneRuns := Function.update s.controlPlaneRuns req none }) ∨
    ∃ pc c, (s.controlPlaneRuns req = some pc ∨ s.controlPlaneRuns req = none ∧ pc = .get) ∧
      s.callOf (.controlPlane req ch) = some c ∧ pc.call req.ns req.name = some c ∧
      s.step cfg (.controlPlane req ch) =
        { store := (s.world.exec c ch).1.store
          iam := (s.world.exec c ch).1.iam
          templateRuns := s.templateRuns
          controlPlaneRuns := Function.update s.controlPlaneRuns req (some (pc.next (s.world.exec c ch).2))
          retained := s.retained.filter ((s.world.exec c ch).1.iam.roles.contains ·)
          retainedIRSA := s.retainedIRSA.filter ((s.world.exec c ch).1.iam.irsaRoles.contains ·) } := by
  by_cases hret : ∃ t r, s.controlPlaneRuns req = some (.returned t r)
  · obtain ⟨t, r, hrun⟩ := hret
    exact .inl ⟨t, r, hrun, by simp [step, stepControlPlane, hrun]⟩
  · push_neg at hret
    have hpc : s.controlPlaneRuns req = some ((s.controlPlaneRuns req).getD .get) ∨
        s.controlPlaneRuns req = none ∧ (s.controlPlaneRuns req).getD .get = .get := by
      cases s.controlPlaneRuns req <;> simp
    obtain ⟨c, hc⟩ : ∃ c, ((s.controlPlaneRuns req).getD .get).call req.ns req.name = some c := by
      refine Option.ne_none_iff_exists'.1 fun h => ?_
      obtain ⟨t, r, ht⟩ := Pc.call_eq_none.1 h
      rcases hpc with h | ⟨h, h'⟩
      · exact hret t r (ht ▸ h)
      · rw [h'] at ht; cases ht
    exact .inr ⟨_, c, hpc, by simpa only [callOf] using hc, hc, by simp only [step, stepControlPlane, hc]⟩

theorem eq_of_run {α : Type} {r : Option α} {g p q : α} (hp : r = some p ∨ r = none ∧ p = g)
    (hq : r = some q ∨ r = none ∧ q = g) : p = q := by
  rcases hp with hp | ⟨hp, rfl⟩ <;> rcases hq with hq | ⟨hq, rfl⟩
  · exact Option.some.inj (hp.symm.trans hq)
  · exact absurd (hp.symm.trans hq) (by simp)
  · exact absurd (hq.symm.trans hp) (by simp)
  · rfl

theorem step_template_of_returned {req : NamespacedName} {ch : Choice} {t : Option Obj}
    {r : Result × Option ErrKind} (h : s.templateRuns req = some (.returned t r)) :
    s.step cfg (.template req ch) = { s with templateRuns := Function.update s.templateRuns req none } := by
  simp [step, stepTemplate, h]

open AWSMachineTemplateReconciler in
theorem step_template_of_call {req : NamespacedName} {ch : Choice} {pc : Pc} {c : Call}
    (hpc : s.templateRuns req = some pc ∨ s.templateRuns req = none ∧ pc = .get)
    (hc : pc.call req.ns req.name = some c) :
    s.step cfg (.template req ch) =
      { store := (s.world.exec c ch).1.store
        iam := (s.world.exec c ch).1.iam
        templateRuns := Function.update s.templateRuns req (some (pc.next cfg (s.world.exec c ch).2))
        controlPlaneRuns := s.controlPlaneRuns
        retained := ((sharedRelease cfg s.store (s.world.exec c ch).1.store pc).1 ++ s.retained).filter
          ((s.world.exec c ch).1.iam.roles.contains ·)
        retainedIRSA := ((sharedRelease cfg s.store (s.world.exec c ch).1.store pc).2 ++
          s.retainedIRSA).filter ((s.world.exec c ch).1.iam.irsaRoles.contains ·) } := by
  rcases step_template cfg s req ch with ⟨t, r, hrun, -⟩ | ⟨pc', c', hpc', -, hc', hs⟩
  · rcases hpc with h | ⟨h, -⟩ <;> rw [h] at hrun <;> cases hrun
    cases hc
  · obtain rfl := eq_of_run hpc hpc'
    obtain rfl := Option.some.inj (hc.symm.trans hc')
    exact hs

theorem step_controlPlane_of_returned {req : NamespacedName} {ch : Choice} {t : Option Obj}
    {r : Result × Option ErrKind} (h : s.controlPlaneRuns req = some (.returned t r)) :
    s.step cfg (.controlPlane req ch) =
      { s with controlPlaneRuns := Function.update s.controlPlaneRuns req none } := by
  simp [step, stepControlPlane, h]

open AWSManagedControlPlaneReconciler in
theorem step_controlPlane_of_call {req : NamespacedName} {ch : Choice} {pc : Pc} {c : Call}
    (hpc : s.controlPlaneRuns req = some pc ∨ s.controlPlaneRuns req = none ∧ pc = .get)
    (hc : pc.call req.ns req.name = some c) :
    s.step cfg (.controlPlane req ch) =
      { store := (s.world.exec c ch).1.store
        iam := (s.world.exec c ch).1.iam
        templateRuns := s.templateRuns
        controlPlaneRuns := Function.update s.controlPlaneRuns req (some (pc.next (s.world.exec c ch).2))
        retained := s.retained.filter ((s.world.exec c ch).1.iam.roles.contains ·)
        retainedIRSA := s.retainedIRSA.filter ((s.world.exec c ch).1.iam.irsaRoles.contains ·) } := by
  rcases step_controlPlane cfg s req ch with ⟨t, r, hrun, -⟩ | ⟨pc', c', hpc', -, hc', hs⟩
  · rcases hpc with h | ⟨h, -⟩ <;> rw [h] at hrun <;> cases hrun
    cases hc
  · obtain rfl := eq_of_run hpc hpc'
    obtain rfl := Option.some.inj (hc.symm.trans hc')
    exact hs

theorem callOf_template {req : NamespacedName} {ch : Choice} {x : Call}
    (h : s.callOf (.template req ch) = some x) :
    ∃ pc, (s.templateRuns req = some pc ∨ s.templateRuns req = none ∧ pc = .get) ∧
      pc.call req.ns req.name = some x := by
  simp only [callOf] at h
  generalize s.templateRuns req = q at h ⊢
  cases q with
  | none => exact ⟨_, .inr ⟨rfl, rfl⟩, h⟩
  | some pc =>
    refine ⟨pc, .inl rfl, ?_⟩
    split at h
    · cases h
    · simpa using h

theorem callOf_controlPlane {req : NamespacedName} {ch : Choice} {x : Call}
    (h : s.callOf (.controlPlane req ch) = some x) :
    ∃ pc, (s.controlPlaneRuns req = some pc ∨ s.controlPlaneRuns req = none ∧ pc = .get) ∧
      pc.call req.ns req.name = some x := by
  simp only [callOf] at h
  generalize s.controlPlaneRuns req = q at h ⊢
  cases q with
  | none => exact ⟨_, .inr ⟨rfl, rfl⟩, h⟩
  | some pc =>
    refine ⟨pc, .inl rfl, ?_⟩
    split at h
    · cases h
    · simpa using h

@[simp] theorem templateRuns_controlPlane (req : NamespacedName) (ch : Choice) :
    (s.step cfg (.controlPlane req ch)).templateRuns = s.templateRuns := by
  rcases step_controlPlane cfg s req ch with ⟨-, -, -, h⟩ | ⟨_, _, -, -, -, h⟩ <;> rw [h]

@[simp] theorem controlPlaneRuns_template (req : NamespacedName) (ch : Choice) :
    (s.step cfg (.template req ch)).controlPlaneRuns = s.controlPlaneRuns := by
  rcases step_template cfg s req ch with ⟨-, -, -, h⟩ | ⟨_, _, -, -, -, h⟩ <;> rw [h]

theorem templateRuns_template_of_ne {req req' : NamespacedName} (ch : Choice) (h : req' ≠ req) :
    (s.step cfg (.template req ch)).templateRuns req' = s.templateRuns req' := by
  rcases step_template cfg s req ch with ⟨-, -, -, hs⟩ | ⟨_, _, -, -, -, hs⟩ <;>
    simp only [hs, Function.update_noteq h]

theorem controlPlaneRuns_controlPlane_of_ne {req req' : NamespacedName} (ch : Choice) (h : req' ≠ req) :
    (s.step cfg (.controlPlane req ch)).controlPlaneRuns req' = s.controlPlaneRuns req' := by
  rcases step_controlPlane cfg s req ch with ⟨-, -, -, hs⟩ | ⟨_, _, -, -, -, hs⟩ <;>
    simp only [hs, Function.update_noteq h]

theorem holds_of_run {α : Type} {P : α → Prop} {r : Option α} {x g : α}
    (hx : r = some x ∨ r = none ∧ x = g) (h : ∀ q, r = some q → P q) (hg : P g) : P x := by
  rcases hx with hx | ⟨-, rfl⟩
  exacts [h x hx, hg]

/-- The template run of `req` after a step: as it was, released, or moved on by its own call,
whose effect is the step's. -/
theorem templateRun_step (cfg : AWSMachineTemplateReconciler) (s : Sys) (a : Action)
    (req : NamespacedName) :
    (s.step cfg a).templateRuns req = s.templateRuns req ∨ (s.step cfg a).templateRuns req = none ∨
    ∃ ch pc c, a = .template req ch ∧
      (s.templateRuns req = some pc ∨ s.templateRuns req = none ∧ pc = .get) ∧
      pc.call req.ns req.name = some c ∧
      (s.step cfg a).templateRuns req = some (pc.next cfg (s.world.exec c ch).2) ∧
      (s.step cfg a).store = (s.world.exec c ch).1.store ∧ (s.step cfg a).iam = (s.world.exec c ch).1.iam := by
  cases a with
  | template req' ch =>
    by_cases hr : req = req'
    · subst hr
      rcases step_template cfg s req ch with ⟨_, _, -, hs⟩ | ⟨pc, c, hpc, -, hc, hs⟩ <;> rw [hs]
      · exact .inr (.inl (by simp))
      · exact .inr (.inr ⟨ch, pc, c, rfl, hpc, hc, by simp, rfl, rfl⟩)
    · exact .inl (templateRuns_template_of_ne ch hr)
  | controlPlane req' ch => exact .inl (by rw [templateRuns_controlPlane])
  | env e => exact .inl rfl

/-- The same for the control-plane run of `req`. -/
theorem controlPlaneRun_step (cfg : AWSMachineTemplateReconciler) (s : Sys) (a : Action)
    (req : NamespacedName) :
    (s.step cfg a).controlPlaneRuns req = s.controlPlaneRuns req ∨
    (s.step cfg a).controlPlaneRuns req = none ∨
    ∃ ch pc c, a = .controlPlane req ch ∧
      (s.controlPlaneRuns req = some pc ∨ s.controlPlaneRuns req = none ∧ pc = .get) ∧
      pc.call req.ns req.name = some c ∧
      (s.step cfg a).controlPlaneRuns req = some (pc.next (s.world.exec c ch).2) ∧
      (s.step cfg a).store = (s.world.exec c ch).1.store ∧ (s.step cfg a).iam = (s.world.exec c ch).1.iam := by
  cases a with
  | controlPlane req' ch =>
    by_cases hr : req = req'
    · subst hr
      rcases step_controlPlane cfg s req ch with ⟨_, _, -, hs⟩ | ⟨pc, c, hpc, -, hc, hs⟩ <;> rw [hs]
      · exact .inr (.inl (by simp))
      · exact .inr (.inr ⟨ch, pc, c, rfl, hpc, hc, by simp, rfl, rfl⟩)
    · exact .inl (controlPlaneRuns_controlPlane_of_ne ch hr)
  | template req' ch => exact .inl (by rw [controlPlaneRuns_template])
  | env e => exact .inl rfl

/-! ### Roles and the ghost lists -/

theorem callOf_reconcileRole {P : String} (h : s.callOf a = some (.reconcileRole P)) :
    ∃ req ch c, a = .template req ch ∧ s.templateRuns req = some (.reconcileRole c) ∧
      P = c.t.spec.iamInstanceProfile := by
  cases a with
  | template req ch =>
    obtain ⟨pc, hpc | ⟨-, rfl⟩, hpc'⟩ := callOf_template h
    · cases pc <;> simp only [AWSMachineTemplateReconciler.Pc.call, Option.some.injEq,
        Call.reconcileRole.injEq, reduceCtorEq] at hpc'
      exact ⟨req, ch, _, rfl, hpc, hpc'.symm⟩
    · cases hpc'
  | controlPlane req ch =>
    obtain ⟨pc, -, hpc'⟩ := callOf_controlPlane h
    cases pc <;> simp [AWSManagedControlPlaneReconciler.Pc.call] at hpc'
  | env => cases h

theorem callOf_reconcileRolesForIRSA {C : String} (h : s.callOf a = some (.reconcileRolesForIRSA C)) :
    (∃ req ch c, a = .template req ch ∧
        s.templateRuns req = some (.reconcileRolesForIRSA c) ∧ C = c.clusterName) ∨
      ∃ req ch c, a = .controlPlane req ch ∧
        s.controlPlaneRuns req = some (.reconcileRolesForIRSA c) ∧ C = c.clusterName := by
  cases a with
  | template req ch =>
    obtain ⟨pc, hpc | ⟨-, rfl⟩, hpc'⟩ := callOf_template h
    · cases pc <;> simp only [AWSMachineTemplateReconciler.Pc.call, Option.some.injEq,
        Call.reconcileRolesForIRSA.injEq, reduceCtorEq] at hpc'
      exact .inl ⟨req, ch, _, rfl, hpc, hpc'.symm⟩
    · cases hpc'
  | controlPlane req ch =>
    obtain ⟨pc, hpc | ⟨-, rfl⟩, hpc'⟩ := callOf_controlPlane h
    · cases pc <;> simp only [AWSManagedControlPlaneReconciler.Pc.call, Option.some.injEq,
        Call.reconcileRolesForIRSA.injEq, reduceCtorEq] at hpc'
      exact .inr ⟨req, ch, _, rfl, hpc, hpc'.symm⟩
    · cases hpc'
  | env => cases h

theorem mem_roles_step {P : String} (h : P ∈ (s.step cfg a).iam.roles) :
    P ∈ s.iam.roles ∨ ∃ req ch c, a = .template req ch ∧
      s.templateRuns req = some (.reconcileRole c) ∧ P = c.t.spec.iamInstanceProfile ∧
      (s.step cfg a).store = s.store := by
  rcases step_world cfg s a with ⟨-, hi⟩ | ⟨e, -, -, hi⟩ | ⟨c, hc, hw⟩
  · exact .inl (hi ▸ h)
  · exact .inl (hi ▸ h)
  · rcases (World.write_roles hw).1 h with h | rfl
    · exact .inl h
    · obtain ⟨req, ch, c, rfl, hrun, rfl⟩ := callOf_reconcileRole hc
      exact .inr ⟨req, ch, c, rfl, hrun, rfl, World.write_store_of_not_patch (by simp) hw⟩

theorem mem_irsaRoles_step {C : String} (h : C ∈ (s.step cfg a).iam.irsaRoles) :
    C ∈ s.iam.irsaRoles ∨ (s.step cfg a).store = s.store ∧
      ((∃ req ch c, a = .template req ch ∧
          s.templateRuns req = some (.reconcileRolesForIRSA c) ∧ C = c.clusterName) ∨
        ∃ req ch c, a = .controlPlane req ch ∧
          s.controlPlaneRuns req = some (.reconcileRolesForIRSA c) ∧ C = c.clusterName) := by
  rcases step_world cfg s a with ⟨-, hi⟩ | ⟨e, -, -, hi⟩ | ⟨c, hc, hw⟩
  · exact .inl (hi ▸ h)
  · exact .inl (hi ▸ h)
  · rcases (World.write_irsaRoles hw).1 h with h | rfl
    · exact .inl h
    · exact .inr ⟨World.write_store_of_not_patch (by simp) hw, callOf_reconcileRolesForIRSA hc⟩

/-- The ghost lists after a step: as they were, with no shared release, or extended by the
step's shared release and cut down to the roles that exist. -/
theorem retained_step (cfg : AWSMachineTemplateReconciler) (s : Sys) (a : Action) :
    ((s.step cfg a).retained = s.retained ∧ (s.step cfg a).retainedIRSA = s.retainedIRSA ∧
      ∀ req ch pc, a = .template req ch → s.templateRuns req = some pc →
        sharedRelease cfg s.store (s.step cfg a).store pc = ([], [])) ∨
    ∃ g : List String × List String,
      (∀ req ch pc, a = .template req ch → s.templateRuns req = some pc →
        sharedRelease cfg s.store (s.step cfg a).store pc = g) ∧
      (s.step cfg a).retained = (g.1 ++ s.retained).filter ((s.step cfg a).iam.roles.contains ·) ∧
      (s.step cfg a).retainedIRSA =
        (g.2 ++ s.retainedIRSA).filter ((s.step cfg a).iam.irsaRoles.contains ·) := by
  cases a with
  | env e => exact .inl ⟨rfl, rfl, fun _ _ _ h => nomatch h⟩
  | controlPlane req ch =>
    rcases step_controlPlane cfg s req ch with ⟨_, _, -, hs⟩ | ⟨_, _, -, -, -, hs⟩ <;> rw [hs]
    · exact .inl ⟨rfl, rfl, fun _ _ _ h => nomatch h⟩
    · exact .inr ⟨([], []), fun _ _ _ h => (nomatch h), rfl, rfl⟩
  | template req ch =>
    rcases step_template cfg s req ch with ⟨t, r, hrun, hs⟩ | ⟨pc', c, hpc, -, -, hs⟩ <;> rw [hs]
    · refine .inl ⟨rfl, rfl, fun _ _ pc h hpc => ?_⟩
      cases h
      rw [hrun, Option.some.injEq] at hpc
      subst hpc
      rfl
    · refine .inr ⟨_, fun _ _ pc h hpc' => ?_, rfl, rfl⟩
      cases h
      rcases hpc with hpc | ⟨hpc, -⟩ <;> rw [hpc] at hpc' <;> cases hpc'
      rfl

theorem mem_retained_step {P : String} (hP : P ∈ (s.step cfg a).iam.roles)
    (h : P ∈ s.retained ∨ ∃ req ch pc, a = .template req ch ∧ s.templateRuns req = some pc ∧
      P ∈ (sharedRelease cfg s.store (s.step cfg a).store pc).1) :
    P ∈ (s.step cfg a).retained := by
  rcases retained_step cfg s a with ⟨hr, -, h0⟩ | ⟨g, hg, hr, -⟩ <;> rw [hr]
  · rcases h with h | ⟨req, ch, pc, ha, hpc, hm⟩
    · exact h
    · rw [h0 req ch pc ha hpc] at hm
      cases hm
  · refine List.mem_filter.2 ⟨List.mem_append.2 ?_, by simpa using hP⟩
    rcases h with h | ⟨req, ch, pc, ha, hpc, hm⟩
    · exact .inr h
    · exact .inl (hg req ch pc ha hpc ▸ hm)

theorem mem_retainedIRSA_step {C : String} (hC : C ∈ (s.step cfg a).iam.irsaRoles)
    (h : C ∈ s.retainedIRSA ∨ ∃ req ch pc, a = .template req ch ∧ s.templateRuns req = some pc ∧
      C ∈ (sharedRelease cfg s.store (s.step cfg a).store pc).2) :
    C ∈ (s.step cfg a).retainedIRSA := by
  rcases retained_step cfg s a with ⟨-, hr, h0⟩ | ⟨g, hg, -, hr⟩ <;> rw [hr]
  · rcases h with h | ⟨req, ch, pc, ha, hpc, hm⟩
    · exact h
    · rw [h0 req ch pc ha hpc] at hm
      cases hm
  · refine List.mem_filter.2 ⟨List.mem_append.2 ?_, by simpa using hC⟩
    rcases h with h | ⟨req, ch, pc, ha, hpc, hm⟩
    · exact .inr h
    · exact .inl (hg req ch pc ha hpc ▸ hm)

/-! ### How one object changes -/

/-- The finalizers of `o` become `fs`: by a reconcile's patch of `o`'s name, or by the
environment, which leaves the controllers' finalizers as they were. -/
def FinWrite (s : Sys) (a : Action) (o : Obj) (fs : List String) : Prop :=
  (∃ b, s.callOf a = some (.patch o.ref b fs)) ∨
    ((∃ e, a = .env e) ∧ ∀ g, controllerFinalizer g = true → (g ∈ fs ↔ g ∈ o.finalizers))

/-- How an object changes in a step: name, uid and spec stay, a deletion timestamp stays set,
labels change only by the environment's edit of that name, finalizers only by `FinWrite`, and an
object being deleted gains no finalizer. -/
structure ObjStep (s : Sys) (a : Action) (o o' : Obj) : Prop where
  uid : o'.uid = o.uid
  ref : o'.ref = o.ref
  spec : o'.spec = o.spec
  deletion : o.deletionTimestamp = true → o'.deletionTimestamp = true
  labels : o'.labels = o.labels ∨ ∃ l, a = .env (.setLabels o.ref l)
  finalizers : o'.finalizers = o.finalizers ∨ FinWrite s a o o'.finalizers
  shrinks : o.deletionTimestamp = true → o'.finalizers ⊆ o.finalizers

/-- An object the environment creates in the step, under a free name with a fresh uid. -/
def Created (s : Sys) (a : Action) (o' : Obj) : Prop :=
  ∃ o, a = .env (.create o) ∧ o'.ref = o.ref ∧ o'.spec = o.spec ∧ o'.labels = o.labels ∧
    o'.finalizers = o.finalizers ∧ s.store.nextUid ≤ o'.uid ∧ s.store.get o.ref = none

/-- An object the step removes: its finalizers become empty, or the environment removes an
object that has none. -/
def Gone (s : Sys) (a : Action) (o : Obj) : Prop :=
  FinWrite s a o [] ∨ (o.finalizers = [] ∧ ∃ e, a = .env e)

theorem ObjStep.refl (o : Obj) : ObjStep s a o o :=
  ⟨rfl, rfl, rfl, id, .inl rfl, .inl rfl, fun _ => List.Subset.refl _⟩

theorem ObjStep.finalizers_edit {o : Obj} {fs : List String} (hw : FinWrite s a o fs)
    (hs : o.deletionTimestamp = true → fs ⊆ o.finalizers) :
    ObjStep s a o ((Edit.finalizers fs).apply o) :=
  ⟨rfl, rfl, rfl, id, .inl rfl, .inr hw, hs⟩

section Update

variable {r : ObjRef} {e : Edit}

theorem update_new (hE : ∀ o ∈ s.store.objects, o.ref = r → ObjStep s a o (e.apply o))
    {o' : Obj} (h : o' ∈ (s.store.update r e).objects) : ∃ o ∈ s.store.objects, ObjStep s a o o' := by
  rcases Store.mem_update_cases h with ⟨-, h⟩ | ⟨o, ho, hr, rfl⟩
  · exact ⟨o', h, .refl o'⟩
  · exact ⟨o, ho, hE o ho hr⟩

theorem update_old (hE : ∀ o ∈ s.store.objects, o.ref = r → ObjStep s a o (e.apply o))
    (hG : ∀ o ∈ s.store.objects, o.ref = r → (e.apply o).collected = true → Gone s a o)
    {o : Obj} (h : o ∈ s.store.objects) :
    (∃ o' ∈ (s.store.update r e).objects, ObjStep s a o o') ∨ Gone s a o := by
  rcases @Store.update_of_mem _ r _ e h with ⟨-, h'⟩ | ⟨hr, h' | hc⟩
  · exact .inl ⟨o, h', .refl o⟩
  · exact .inl ⟨_, h', hE o h hr⟩
  · exact .inr (hG o h hr hc)

theorem finWrite_nil_of_collected {o : Obj} {fs : List String} (hw : FinWrite s a o fs)
    (hc : ((Edit.finalizers fs).apply o).collected = true) : Gone s a o := by
  simp only [Edit.apply, Obj.collected, Bool.and_eq_true, List.isEmpty_iff] at hc
  exact .inl (hc.2 ▸ hw)

end Update

theorem finWrite_env {o : Obj} {e : EnvAction} {f : String} (hf : controllerFinalizer f = false)
    {fs : List String} (hfs : ∀ g, g ≠ f → (g ∈ fs ↔ g ∈ o.finalizers)) :
    FinWrite s (.env e) o fs :=
  .inr ⟨⟨e, rfl⟩, fun g hg => hfs g (by rintro rfl; simp [hf] at hg)⟩

/-- The objects after an environment write. -/
theorem envApply_objects (e : EnvAction) :
    (∀ o' ∈ (s.store.envApply e).objects,
      (∃ o ∈ s.store.objects, ObjStep s (.env e) o o') ∨ Created s (.env e) o') ∧
    (∀ o ∈ s.store.objects,
      (∃ o' ∈ (s.store.envApply e).objects, ObjStep s (.env e) o o') ∨ Gone s (.env e) o) := by
  have hgone : ∀ o, o.finalizers = [] → Gone s (.env e) o := fun o h => .inr ⟨h, e, rfl⟩
  have hsame : (∀ o' ∈ s.store.objects, (∃ o ∈ s.store.objects, ObjStep s (.env e) o o') ∨
      Created s (.env e) o') ∧ ∀ o ∈ s.store.objects,
      (∃ o' ∈ s.store.objects, ObjStep s (.env e) o o') ∨ Gone s (.env e) o :=
    ⟨fun o' h => .inl ⟨o', h, .refl o'⟩, fun o h => .inl ⟨o, h, .refl o⟩⟩
  cases e with
  | create o =>
    simp only [Store.envApply]
    cases hc : s.store.create o with
    | none => exact hsame
    | some st =>
      refine ⟨fun o' h => ?_, fun o₁ h => .inl ⟨o₁, (Store.mem_create hc).2 (.inr h), .refl o₁⟩⟩
      rcases (Store.mem_create hc).1 h with rfl | h
      · exact .inr ⟨o, rfl, rfl, rfl, rfl, rfl, le_rfl, Store.get_create_none hc⟩
      · exact .inl ⟨o', h, .refl o'⟩
  | setLabels r l =>
    have hE : ∀ o ∈ s.store.objects, o.ref = r →
        ObjStep s (.env (.setLabels r l)) o ((Edit.labels l).apply o) :=
      fun o _ hr => ⟨rfl, rfl, rfl, id, .inr ⟨l, by rw [hr]⟩, .inl rfl, fun _ => List.Subset.refl _⟩
    exact ⟨fun o' h => .inl (update_new hE h), fun o h => update_old hE
      (fun o _ _ hc => hgone o (by simp [Edit.apply, Obj.collected] at hc; exact hc.2)) h⟩
  | delete r =>
    have hE : ∀ o ∈ s.store.objects, o.ref = r → ObjStep s (.env (.delete r)) o (Edit.delete.apply o) :=
      fun o _ _ => ⟨rfl, rfl, rfl, fun _ => rfl, .inl rfl, .inl rfl, fun _ => List.Subset.refl _⟩
    refine ⟨fun o' h => .inl (update_new hE h), fun o h => update_old hE (fun o _ _ hc => ?_) h⟩
    simp only [Edit.apply, Obj.collected, Bool.true_and, List.isEmpty_iff] at hc
    exact hgone o hc
  | addFinalizer r f =>
    simp only [Store.envApply]
    split
    · rename_i o₀ h₀
      split
      · exact hsame
      · rename_i hcond
        simp only [Bool.or_eq_true, not_or, Bool.not_eq_true] at hcond
        have hE : ∀ o ∈ s.store.objects, o.ref = r → ObjStep s (.env (.addFinalizer r f)) o
            ((Edit.finalizers (Controllerutil.addFinalizer o₀.finalizers f)).apply o) := by
          intro o ho hr
          obtain rfl := Store.eq_of_mem_of_ref_eq ho (Store.mem_of_get h₀) (by rw [hr, Store.ref_of_get h₀])
          exact .finalizers_edit (finWrite_env hcond.1 fun g hg => by simp [hg])
            fun hd => absurd hd (by simp [hcond.2])
        refine ⟨fun o' h => .inl (update_new hE h), fun o h => update_old hE (fun o _ _ hc => ?_) h⟩
        simp only [Edit.apply, Obj.collected, Bool.and_eq_true, List.isEmpty_iff] at hc
        exact absurd hc.2 Controllerutil.addFinalizer_ne_nil
    · exact hsame
  | removeFinalizer r f =>
    simp only [Store.envApply]
    split
    · rename_i o₀ h₀
      split
      · exact hsame
      · rename_i hcond
        simp only [Bool.not_eq_true] at hcond
        have hw : ∀ o ∈ s.store.objects, o.ref = r → o = o₀ ∧ FinWrite s (.env (.removeFinalizer r f)) o
            (Controllerutil.removeFinalizer o₀.finalizers f) := by
          intro o ho hr
          obtain rfl := Store.eq_of_mem_of_ref_eq ho (Store.mem_of_get h₀) (by rw [hr, Store.ref_of_get h₀])
          exact ⟨rfl, finWrite_env hcond fun g hg => by simp [hg]⟩
        have hE : ∀ o ∈ s.store.objects, o.ref = r → ObjStep s (.env (.removeFinalizer r f)) o
            ((Edit.finalizers (Controllerutil.removeFinalizer o₀.finalizers f)).apply o) := by
          intro o ho hr
          obtain ⟨rfl, hw⟩ := hw o ho hr
          exact .finalizers_edit hw fun _ => List.filter_subset' _
        exact ⟨fun o' h => .inl (update_new hE h), fun o h => update_old hE
          (fun o ho hr hc => finWrite_nil_of_collected (hw o ho hr).2 hc) h⟩
    · exact hsame

/-- The store after a step: as it was, the environment's write, or a reconcile's patch of the
finalizers of one name, which edits the object there as `ObjStep` and `FinWrite` allow. -/
theorem step_store (cfg : AWSMachineTemplateReconciler) (s : Sys) (a : Action) :
    (s.step cfg a).store = s.store ∨
    (∃ e, a = .env e ∧ (s.step cfg a).store = s.store.envApply e) ∨
    ∃ r m, (s.step cfg a).store = s.store.update r (.finalizers m) ∧
      ∀ o ∈ s.store.objects, o.ref = r →
        ObjStep s a o ((Edit.finalizers m).apply o) ∧ FinWrite s a o m := by
  rcases step_world cfg s a with ⟨hs, -⟩ | ⟨e, rfl, hs, -⟩ | ⟨c, hc, hw⟩
  · exact .inl hs
  · exact .inr (.inl ⟨e, rfl, hs⟩)
  · by_cases hp : ∃ r b m, c = .patch r b m
    · obtain ⟨r, b, m, rfl⟩ := hp
      have hpatch := (World.write_patch.1 hw).1
      simp only [world_store] at hpatch
      rcases Store.patch_eq_ok hpatch with ⟨-, hs⟩ | ⟨o₀, h₀, hacc, hs⟩
      · exact .inl hs
      · refine .inr (.inr ⟨r, m, hs, fun o ho hr => ?_⟩)
        obtain rfl := Store.eq_of_mem_of_ref_eq ho (Store.mem_of_get h₀) (by rw [hr, Store.ref_of_get h₀])
        have hw : FinWrite s a o m := .inl ⟨b, by rw [hr]; exact hc⟩
        exact ⟨.finalizers_edit hw fun hd f hf => by_contra fun hn => hacc ⟨hd, f, hf, hn⟩, hw⟩
    · push_neg at hp
      have hs := World.write_store_of_not_patch hp hw
      simp only [world_store] at hs
      exact .inl hs

/-- Every object after a step comes from one before it, or the environment creates it. -/
theorem step_new (cfg : AWSMachineTemplateReconciler) (s : Sys) (a : Action) {o' : Obj}
    (h : o' ∈ (s.step cfg a).store.objects) :
    (∃ o ∈ s.store.objects, ObjStep s a o o') ∨ Created s a o' := by
  rcases step_store cfg s a with hs | ⟨e, rfl, hs⟩ | ⟨r, m, hs, hE⟩ <;> rw [hs] at h
  · exact .inl ⟨o', h, .refl o'⟩
  · exact (envApply_objects e).1 o' h
  · exact .inl (update_new (fun o ho hr => (hE o ho hr).1) h)

/-- Every object before a step is still there, changed as `ObjStep` allows, or is gone. -/
theorem step_old (cfg : AWSMachineTemplateReconciler) (s : Sys) (a : Action) {o : Obj}
    (h : o ∈ s.store.objects) :
    (∃ o' ∈ (s.step cfg a).store.objects, ObjStep s a o o') ∨ Gone s a o := by
  rcases step_store cfg s a with hs | ⟨e, rfl, hs⟩ | ⟨r, m, hs, hE⟩ <;> rw [hs]
  · exact .inl ⟨o, h, .refl o⟩
  · exact (envApply_objects e).2 o h
  · exact update_old (fun o ho hr => (hE o ho hr).1)
      (fun o ho hr hc => finWrite_nil_of_collected (hE o ho hr).2 hc) h

theorem nextUid_le_step (cfg : AWSMachineTemplateReconciler) (s : Sys) (a : Action) :
    s.store.nextUid ≤ (s.step cfg a).store.nextUid := by
  rcases step_store cfg s a with hs | ⟨e, rfl, hs⟩ | ⟨r, m, hs, -⟩ <;> rw [hs]
  · exact Store.nextUid_le_envApply e
  · rfl

theorem step_new_of_lt (cfg : AWSMachineTemplateReconciler) (s : Sys) (a : Action) {o' : Obj}
    (h : o' ∈ (s.step cfg a).store.objects) (hu : o'.uid < s.store.nextUid) :
    ∃ o ∈ s.store.objects, ObjStep s a o o' :=
  (step_new cfg s a h).resolve_right fun ⟨_, _, _, _, _, _, hle, _⟩ => absurd hu (not_lt.2 hle)

end Sys

end CapaIam

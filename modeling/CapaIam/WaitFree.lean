import CapaIam.ControlPlaneProgress
import CapaIam.Termination
/-!
# Every reconcile in flight ends, whatever runs beside it

`Pc.rank` bounds the calls a reconcile still makes when it runs against a list of answers. In
the system a reconcile's calls are interleaved with the calls of every other reconcile, with
writes of the environment, and with failures of the calls themselves, and each of its calls
answers from the world those left. None of that matters for how long it runs: `stepsLeft`, the
rank of the run plus the step that releases it, is lowered by each of the run's own steps and
left alone by every other step (`templateLeft_own`, `templateLeft_other`). A measure with those
two properties reaches `0` within as many own steps as it starts from (`reaches_zero`), and in a
reachable state it is at most `37` for a template run and `10` for a control-plane run, the
bounds of `Termination`. So a template reconcile in flight is released within 37 of its own
steps and a control-plane reconcile within 10, under every interleaving: each reconciler is
wait-free.
-/

namespace CapaIam

/-- A measure that a step of one actor lowers while it is positive, and that no other step
raises, reaches `0` within as many of the actor's steps as it starts from, whatever the other
steps are. -/
theorem reaches_zero {σ α : Type} (step : σ → α → σ) (own : α → Bool) (m : σ → Nat)
    (hown : ∀ s a, own a = true → 0 < m s → m (step s a) < m s)
    (hother : ∀ s a, own a = false → m (step s a) ≤ m s) :
    ∀ (s : σ) (as : List α), m s ≤ (as.filter own).length →
      ∃ k ≤ as.length, m ((as.take k).foldl step s) = 0
  | s, [], h => ⟨0, le_rfl, by simpa using h⟩
  | s, a :: as, h => by
    by_cases h0 : m s = 0
    · exact ⟨0, Nat.zero_le _, by simpa using h0⟩
    obtain ⟨k, hk, hz⟩ : ∃ k ≤ as.length, m ((as.take k).foldl step (step s a)) = 0 := by
      refine reaches_zero step own m hown hother _ as ?_
      cases ha : own a
      · have := hother s a ha
        simp only [List.filter_cons, ha, Bool.false_eq_true, if_false] at h
        omega
      · have := hown s a ha (Nat.pos_of_ne_zero h0)
        simp only [List.filter_cons, ha, if_true, List.length_cons] at h
        omega
    exact ⟨k + 1, by simpa using hk, by simpa using hz⟩

/-- The own steps left to a reconcile: none when it is idle, otherwise the calls its `Pc` may
still make and the step that releases it. -/
def stepsLeft {P : Type} (rank : P → Nat) : Option P → Nat
  | none => 0
  | some p => rank p + 1

@[simp] theorem stepsLeft_none {P : Type} (rank : P → Nat) : stepsLeft rank none = 0 := rfl

@[simp] theorem stepsLeft_some {P : Type} (rank : P → Nat) (p : P) :
    stepsLeft rank (some p) = rank p + 1 := rfl

theorem stepsLeft_eq_zero {P : Type} {rank : P → Nat} {r : Option P} :
    stepsLeft rank r = 0 ↔ r = none := by
  cases r <;> simp

def Action.ofTemplate (req : NamespacedName) : Action → Bool
  | .template r _ => decide (r = req)
  | _ => false

def Action.ofControlPlane (req : NamespacedName) : Action → Bool
  | .controlPlane r _ => decide (r = req)
  | _ => false

theorem Action.ofTemplate_eq_true {req : NamespacedName} {a : Action} :
    a.ofTemplate req = true ↔ ∃ ch, a = .template req ch := by
  cases a <;> simp [Action.ofTemplate]

theorem Action.ofControlPlane_eq_true {req : NamespacedName} {a : Action} :
    a.ofControlPlane req = true ↔ ∃ ch, a = .controlPlane req ch := by
  cases a <;> simp [Action.ofControlPlane]

theorem AWSMachineTemplateReconciler.Pc.done_of_call {ns name : String} {p : Pc} {c : Call}
    (h : p.call ns name = some c) : p.done = false := by
  cases hd : p.done
  · rfl
  · obtain ⟨t, r, rfl⟩ := Pc.done_eq_true hd
    cases h

theorem AWSManagedControlPlaneReconciler.Pc.done_of_call {ns name : String} {p : Pc} {c : Call}
    (h : p.call ns name = some c) : p.done = false := by
  cases hd : p.done
  · rfl
  · obtain ⟨a, r, rfl⟩ := Pc.done_eq_true hd
    cases h

namespace Sys

variable {cfg : AWSMachineTemplateReconciler} {s : Sys} {req : NamespacedName}

section Template
open AWSMachineTemplateReconciler

def templateLeft (s : Sys) (req : NamespacedName) : Nat :=
  stepsLeft Pc.rank (s.templateRuns req)

/-- A step of the template reconcile of `req` in flight lowers what it has left: a returned run is
released, and every call lowers the rank of its `Pc`, whatever the call answered. -/
theorem templateLeft_own (ch : Choice) (h : 0 < s.templateLeft req) :
    (s.step cfg (.template req ch)).templateLeft req < s.templateLeft req := by
  unfold templateLeft at h ⊢
  rcases step_template cfg s req ch with ⟨t, r, hr, hs⟩ | ⟨pc, c, hpc | ⟨hpc, -⟩, -, hc, hs⟩
  · rw [hs, hr]
    simp
  · have : (pc.next cfg (s.world.exec c ch).2).rank < pc.rank := Pc.rank_next _ (Pc.done_of_call hc)
    rw [hs, hpc]
    simp only [Function.update_same, stepsLeft_some]
    omega
  · rw [hpc] at h
    cases h

theorem templateLeft_other {a : Action} (ha : a.ofTemplate req = false) :
    (s.step cfg a).templateLeft req ≤ s.templateLeft req := by
  unfold templateLeft
  rcases templateRun_step cfg s a req with h | h | ⟨ch, -, -, rfl, -⟩
  · rw [h]
  · rw [h]
    exact Nat.zero_le _
  · simp [Action.ofTemplate] at ha

theorem templateAlone_returned {n : Nat} {p : Pc} {t : Option Obj} {r : Result × Option ErrKind}
    {w' : World} (h : Alone (Pc.call req.ns req.name) (Pc.next cfg) n p s.world (.returned t r) w')
    (hp : s.templateRuns req = some p ∨ s.templateRuns req = none ∧ p = .get) :
    (templateAlone cfg req n s).templateRuns req = some (.returned t r) ∧
      (templateAlone cfg req n s).world = w' := by
  obtain ⟨hq | ⟨-, hq⟩, hw⟩ := templateAlone_of_alone h hp
  exacts [⟨hq, hw⟩, by cases hq]

end Template

section ControlPlane
open AWSManagedControlPlaneReconciler

def controlPlaneLeft (s : Sys) (req : NamespacedName) : Nat :=
  stepsLeft Pc.rank (s.controlPlaneRuns req)

theorem controlPlaneLeft_own (ch : Choice) (h : 0 < s.controlPlaneLeft req) :
    (s.step cfg (.controlPlane req ch)).controlPlaneLeft req < s.controlPlaneLeft req := by
  unfold controlPlaneLeft at h ⊢
  rcases step_controlPlane cfg s req ch with ⟨t, r, hr, hs⟩ | ⟨pc, c, hpc | ⟨hpc, -⟩, -, hc, hs⟩
  · rw [hs, hr]
    simp
  · have : (pc.next (s.world.exec c ch).2).rank < pc.rank := Pc.rank_next _ (Pc.done_of_call hc)
    rw [hs, hpc]
    simp only [Function.update_same, stepsLeft_some]
    omega
  · rw [hpc] at h
    cases h

theorem controlPlaneLeft_other {a : Action} (ha : a.ofControlPlane req = false) :
    (s.step cfg a).controlPlaneLeft req ≤ s.controlPlaneLeft req := by
  unfold controlPlaneLeft
  rcases controlPlaneRun_step cfg s a req with h | h | ⟨ch, -, -, rfl, -⟩
  · rw [h]
  · rw [h]
    exact Nat.zero_le _
  · simp [Action.ofControlPlane] at ha

theorem controlPlaneAlone_returned {n : Nat} {p : Pc} {a : Option Obj} {r : Result × Option ErrKind}
    {w' : World} (h : Alone (Pc.call req.ns req.name) Pc.next n p s.world (.returned a r) w')
    (hp : s.controlPlaneRuns req = some p ∨ s.controlPlaneRuns req = none ∧ p = .get) :
    (controlPlaneAlone cfg req n s).controlPlaneRuns req = some (.returned a r) ∧
      (controlPlaneAlone cfg req n s).world = w' := by
  obtain ⟨hq | ⟨-, hq⟩, hw⟩ := controlPlaneAlone_of_alone h hp
  exacts [⟨hq, hw⟩, by cases hq]

end ControlPlane

end Sys

open AWSMachineTemplateReconciler in
/-- In a reachable state a template reconcile has at most 37 steps left: a fresh one starts below
the rank of `Get`, and no step raises it. -/
theorem Reachable.templateLeft_le {cfg : AWSMachineTemplateReconciler} {adm : Sys → Action → Prop}
    {s : Sys} (hs : Reachable cfg adm s) (req : NamespacedName) : s.templateLeft req ≤ 37 := by
  induction hs with
  | init st => simp [Sys.init, Sys.templateLeft]
  | @step s a _ _ ih =>
    unfold Sys.templateLeft at ih ⊢
    rcases Sys.templateRun_step cfg s a req with h | h | ⟨ch, pc, c, -, hpc, hc, hrun, -⟩
    · rwa [h]
    · simp [h]
    · have : (pc.next cfg (s.world.exec c ch).2).rank < pc.rank := Pc.rank_next _ (Pc.done_of_call hc)
      rw [hrun, stepsLeft_some]
      rcases hpc with hpc | ⟨-, rfl⟩
      · rw [hpc, stepsLeft_some] at ih
        omega
      · exact this

open AWSManagedControlPlaneReconciler in
/-- In a reachable state a control-plane reconcile has at most 10 steps left. -/
theorem Reachable.controlPlaneLeft_le {cfg : AWSMachineTemplateReconciler}
    {adm : Sys → Action → Prop} {s : Sys} (hs : Reachable cfg adm s) (req : NamespacedName) :
    s.controlPlaneLeft req ≤ 10 := by
  induction hs with
  | init st => simp [Sys.init, Sys.controlPlaneLeft]
  | @step s a _ _ ih =>
    unfold Sys.controlPlaneLeft at ih ⊢
    rcases Sys.controlPlaneRun_step cfg s a req with h | h | ⟨ch, pc, c, -, hpc, hc, hrun, -⟩
    · rwa [h]
    · simp [h]
    · have : (pc.next (s.world.exec c ch).2).rank < pc.rank := Pc.rank_next _ (Pc.done_of_call hc)
      rw [hrun, stepsLeft_some]
      rcases hpc with hpc | ⟨-, rfl⟩
      · rw [hpc, stepsLeft_some] at ih
        omega
      · exact this

namespace Sys

variable {cfg : AWSMachineTemplateReconciler} {s : Sys}

/-- The template reconciler is wait-free: from every reachable state, whatever reconciles of other
requests, writes of the environment and failed calls come between its steps, the template
reconcile of `req` is idle again within 37 of its own steps. A reconcile in flight has by then
returned and been released. -/
theorem template_reconcile_released_within_37_steps {adm : Sys → Action → Prop}
    (hs : Reachable cfg adm s) (req : NamespacedName) (as : List Action)
    (h : 37 ≤ (as.filter (Action.ofTemplate req)).length) :
    ∃ k ≤ as.length, (s.run cfg (as.take k)).templateRuns req = none := by
  obtain ⟨k, hk, hz⟩ := reaches_zero (step cfg) (Action.ofTemplate req) (templateLeft · req)
    (fun s a ha hpos => by
      obtain ⟨ch, rfl⟩ := Action.ofTemplate_eq_true.1 ha
      exact templateLeft_own ch hpos)
    (fun _ _ ha => templateLeft_other ha) s as ((hs.templateLeft_le req).trans h)
  exact ⟨k, hk, stepsLeft_eq_zero.1 hz⟩

theorem control_plane_template_idle_within_37_steps :
    Reachable ⟨true⟩ (fun _ _ => True) ((init controlPlaneStore).step ⟨true⟩ (.template ⟨"ns", "cp"⟩ .ok)) ∧
      37 ≤ ((List.replicate 37 (Action.template ⟨"ns", "cp"⟩ .ok)).filter
        (Action.ofTemplate ⟨"ns", "cp"⟩)).length ∧
      ∃ k ≤ (List.replicate 37 (Action.template ⟨"ns", "cp"⟩ .ok)).length,
        (((init controlPlaneStore).step ⟨true⟩ (.template ⟨"ns", "cp"⟩ .ok)).run ⟨true⟩
          ((List.replicate 37 (Action.template ⟨"ns", "cp"⟩ .ok)).take k)).templateRuns ⟨"ns", "cp"⟩ = none :=
  have hs : Reachable ⟨true⟩ (fun _ _ => True)
      ((init controlPlaneStore).step ⟨true⟩ (.template ⟨"ns", "cp"⟩ .ok)) :=
    .step _ (.init _) trivial
  have h : 37 ≤ ((List.replicate 37 (Action.template ⟨"ns", "cp"⟩ .ok)).filter
      (Action.ofTemplate ⟨"ns", "cp"⟩)).length := by
    simp [Action.ofTemplate]
  ⟨hs, h, template_reconcile_released_within_37_steps hs _ _ h⟩

/-- The control-plane reconciler is wait-free: from every reachable state, whatever comes between
its steps, the control-plane reconcile of `req` is idle again within 10 of its own steps. -/
theorem control_plane_reconcile_released_within_10_steps {adm : Sys → Action → Prop}
    (hs : Reachable cfg adm s) (req : NamespacedName) (as : List Action)
    (h : 10 ≤ (as.filter (Action.ofControlPlane req)).length) :
    ∃ k ≤ as.length, (s.run cfg (as.take k)).controlPlaneRuns req = none := by
  obtain ⟨k, hk, hz⟩ := reaches_zero (step cfg) (Action.ofControlPlane req) (controlPlaneLeft · req)
    (fun s a ha hpos => by
      obtain ⟨ch, rfl⟩ := Action.ofControlPlane_eq_true.1 ha
      exact controlPlaneLeft_own ch hpos)
    (fun _ _ ha => controlPlaneLeft_other ha) s as ((hs.controlPlaneLeft_le req).trans h)
  exact ⟨k, hk, stepsLeft_eq_zero.1 hz⟩

theorem eks_control_plane_idle_within_10_steps :
    Reachable ⟨true⟩ (fun _ _ => True) ((init eksStore).step ⟨true⟩ (.controlPlane ⟨"ns", "eks"⟩ .ok)) ∧
      10 ≤ ((List.replicate 10 [Action.template ⟨"ns", "eks"⟩ .ok, .controlPlane ⟨"ns", "eks"⟩ .ok]).flatten.filter
        (Action.ofControlPlane ⟨"ns", "eks"⟩)).length ∧
      ∃ k ≤ (List.replicate 10 [Action.template ⟨"ns", "eks"⟩ .ok, .controlPlane ⟨"ns", "eks"⟩ .ok]).flatten.length,
        (((init eksStore).step ⟨true⟩ (.controlPlane ⟨"ns", "eks"⟩ .ok)).run ⟨true⟩
          ((List.replicate 10 [Action.template ⟨"ns", "eks"⟩ .ok, .controlPlane ⟨"ns", "eks"⟩ .ok]).flatten.take k)).controlPlaneRuns
          ⟨"ns", "eks"⟩ = none :=
  have hs : Reachable ⟨true⟩ (fun _ _ => True)
      ((init eksStore).step ⟨true⟩ (.controlPlane ⟨"ns", "eks"⟩ .ok)) :=
    .step _ (.init _) trivial
  have h : 10 ≤ ((List.replicate 10 [Action.template ⟨"ns", "eks"⟩ .ok, .controlPlane ⟨"ns", "eks"⟩ .ok]).flatten.filter
      (Action.ofControlPlane ⟨"ns", "eks"⟩)).length := by
    decide
  ⟨hs, h, control_plane_reconcile_released_within_10_steps hs _ _ h⟩

end Sys

end CapaIam

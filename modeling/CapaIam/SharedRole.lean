import CapaIam.WellFormed

/-!
# No premature deletion

A deletion run of a template `T` with instance-profile name `P` asks `isRoleUsedElsewhere`, and
only on a `false` answer calls `DeleteRole` for `P` and, for a control-plane template with
`EnableRoute53Role`, `DeleteRolesForIRSA` for `T`'s cluster. The spec accepts one race: a
template created between the check and the delete calls. In runs without that race
(`NoCreateInWindow`) neither call is made while a live template declares `P`
(`delete_calls_only_when_unused`). The IRSA roles belong to the cluster, though, and the guard
looks at `P` only: the deletion of an old control-plane template whose profile differs from the
live one's deletes the cluster's IRSA roles (`irsa_roles_deleted_under_live_template`).
-/

namespace CapaIam

namespace AWSMachineTemplateReconciler.Pc

/-- A deletion run between its `isRoleUsedElsewhere` check and the end of its delete calls. -/
def inWindow : Pc → Bool
  | .remote _ next => next.inWindow
  | .deleteRole _ | .deleteRolesForIRSA _ => true
  | _ => false

/-- In its window, a deletion run's template is the only template declaring its
instance-profile name: what a `false` answer of `isRoleUsedElsewhere` says. -/
def Unshared (st : Store) : Pc → Prop
  | .remote _ next => next.Unshared st
  | .deleteRole c | .deleteRolesForIRSA c =>
    ∀ o ∈ st.objects, o.spec = .awsMachineTemplate c.t.spec.iamInstanceProfile → o.uid = c.t.uid
  | _ => True

end AWSMachineTemplateReconciler.Pc

/-- The runs where no `AWSMachineTemplate` is created while a deletion run is in its window. -/
def NoCreateInWindow (s : Sys) : Action → Prop
  | .env (.create o) =>
    o.spec.kind = .awsMachineTemplate → ∀ req pc, s.templateRuns req = some pc → pc.inWindow = false
  | _ => True

namespace Sys

/-! ### Two control-plane templates of one cluster -/

/-- An old control-plane template being deleted and the live one that replaced it, with another
instance-profile name. -/
def rolloverStore : Store where
  objects := [
    ⟨0, "ns", "cluster", .awsCluster, ⟨some "c", none, none⟩, false, []⟩,
    ⟨1, "ns", "old", .awsMachineTemplate "old-profile",
      ⟨some "c", some "capi", some "control-plane"⟩, true, [controlPlaneFinalizer]⟩,
    ⟨2, "ns", "new", .awsMachineTemplate "new-profile",
      ⟨some "c", some "capi", some "control-plane"⟩, false, [controlPlaneFinalizer]⟩]
  nextUid := 3
  nodup := by decide
  uid_nodup := by decide
  uid_lt := by decide

def oldRequest : NamespacedName := ⟨"ns", "old"⟩

/-- The old template's deletion run up to its IRSA call: the `Get`, the cluster lookup, the
session, the guard (`false`: no other template declares `old-profile`) and `DeleteRole`. -/
def rolloverTrace : List Action := List.replicate 7 (.template oldRequest .ok)

def rolloverState : Sys := (Sys.init rolloverStore).run ⟨true⟩ rolloverTrace

/-- With no template created at all, the old template's deletion run calls
`DeleteRolesForIRSA` for cluster `c` while the live control-plane template of `c` exists. -/
theorem irsa_roles_deleted_under_live_template :
    Reachable ⟨true⟩ NoCreateInWindow rolloverState ∧
      rolloverState.callOf (.template oldRequest .ok) = some (.deleteRolesForIRSA "c") ∧
      rolloverState.store.objects.any (fun o => o.labels.clusterName == some "c" &&
        Key.isControlPlaneAWSMachineTemplate o.labels && o.spec.kind == .awsMachineTemplate &&
        !o.deletionTimestamp) = true :=
  ⟨Reachable.run _ (.init _) fun _ ha _ => by rw [List.eq_of_mem_replicate ha]; trivial,
    by decide, by decide⟩

end Sys

/-! ### The guard's answer holds through the window -/

namespace AWSMachineTemplateReconciler

variable {cfg : AWSMachineTemplateReconciler} {st : Store} {c : Ctx} {u : Bool} {tg : Target}

theorem afterGet_unshared (t : Obj) : (afterGet t).Unshared st := by
  unfold afterGet
  repeat' split
  all_goals trivial

theorem session_unshared : (session c).Unshared st := by
  simp only [session, Pc.Unshared]
  repeat' split
  all_goals trivial

theorem afterRemove_unshared : (afterRemove c u tg).Unshared st := by
  cases tg <;> simp only [afterRemove] <;> (try split) <;> trivial

theorem startRemove_unshared {obj : Obj} : (startRemove c u tg obj).Unshared st := by
  unfold startRemove
  split
  · trivial
  · exact afterRemove_unshared

theorem afterReconcileRole_unshared : (afterReconcileRole cfg c).Unshared st := by
  unfold afterReconcileRole
  split <;> trivial

/-- A reconcile enters its window only on a `false` answer of `isRoleUsedElsewhere`, which says
that no other template declares the profile. -/
theorem Pc.Unshared.next {p : Pc} {resp : Resp} {ns name : String} (h : p.Unshared st)
    (ha : ∀ c v, p.call ns name = some c → resp = .ok v → c.Answered st v) :
    (p.next cfg resp).Unshared st := by
  cases resp with
  | error e =>
    cases p with
    | get | getConfigMap => cases e <;> trivial
    | removeFinalizer => cases e <;> simp only [Pc.next] <;> (try split) <;> trivial
    | _ => trivial
  | ok v =>
    cases p with
    | get =>
      obtain ⟨t, rfl, -⟩ := ha _ v rfl rfl
      exact afterGet_unshared t
    | remote => exact h
    | getAWSCluster => exact session_unshared
    | isRoleUsedElsewhere c =>
      obtain rfl := ha _ v rfl rfl
      simp only [Pc.next]
      split
      · trivial
      · rename_i hused
        intro o ho hs
        by_contra hu
        exact hused (List.any_eq_true.2 ⟨o, ho, by simp [hu, hs]⟩)
    | deleteRole =>
      simp only [Pc.next]
      split
      · exact h
      · trivial
    | getAWSClusterToRelease | getConfigMap =>
      obtain ⟨o, rfl, -⟩ := ha _ v rfl rfl
      exact startRemove_unshared
    | removeFinalizer =>
      simp only [Pc.next]
      split
      · trivial
      · exact afterRemove_unshared
    | refetch =>
      obtain ⟨o, rfl, -⟩ := ha _ v rfl rfl
      trivial
    | reconcileRole => exact afterReconcileRole_unshared
    | _ => trivial

end AWSMachineTemplateReconciler

namespace Sys

open AWSMachineTemplateReconciler

variable {cfg : AWSMachineTemplateReconciler} {s : Sys} {a : Action}

theorem unshared_step {p : Pc} (hu : p.Unshared s.store)
    (hc : p.inWindow = true → ∀ o', Created s a o' → o'.spec.kind ≠ .awsMachineTemplate) :
    p.Unshared (s.step cfg a).store := by
  induction p with
  | remote _ _ ih => exact ih hu hc
  | deleteRole c | deleteRolesForIRSA c =>
    intro o' ho' hspec
    rcases step_new cfg s a ho' with ⟨o, ho, hst⟩ | hcr
    · rw [hst.uid]
      exact hu o ho (hst.spec ▸ hspec)
    · exact absurd (by rw [hspec]; rfl) (hc rfl o' hcr)
  | _ => trivial

end Sys

open Sys AWSMachineTemplateReconciler in
theorem Reachable.unshared {cfg : AWSMachineTemplateReconciler} {s : Sys}
    (h : Reachable cfg NoCreateInWindow s) :
    ∀ req p, s.templateRuns req = some p → p.Unshared s.store := by
  induction h with
  | init st => exact fun _ _ h => nomatch h
  | @step s a _ hadm ih =>
    have hkeep : ∀ req p, s.templateRuns req = some p → p.Unshared (s.step cfg a).store := by
      intro req p hp
      refine unshared_step (ih req p hp) fun hw o' ⟨o, hao, _, hspec, _⟩ hk => ?_
      subst hao
      exact absurd (hadm (hspec ▸ hk) req p hp) (by simp [hw])
    intro req p hp
    rcases templateRun_step cfg s a req with heq | hnone | ⟨ch, pc, c, rfl, hpc, hc, hrun, hst, -⟩
    · exact hkeep req p (heq.symm.trans hp)
    · rw [hnone] at hp; cases hp
    · rw [hrun, Option.some.injEq] at hp
      subst hp
      have hold : pc.Unshared (s.step cfg (.template req ch)).store := holds_of_run hpc (hkeep req) trivial
      rw [hst] at hold ⊢
      exact hold.next (World.answered_of_call hc)

namespace Sys

open AWSMachineTemplateReconciler

variable {cfg : AWSMachineTemplateReconciler} {s : Sys}

/-- In runs without the accepted race, `DeleteRole` for a profile is called only while every
template declaring it is being deleted, and `DeleteRolesForIRSA` for a cluster only from the
window of a deletion run of a template of that cluster whose own profile every template
declaring it is being deleted. -/
theorem delete_calls_only_when_unused (hs : Reachable cfg NoCreateInWindow s) (req : NamespacedName)
    (ch : Choice) :
    (∀ P, s.callOf (.template req ch) = some (.deleteRole P) →
      ∀ o ∈ s.store.objects, o.spec = .awsMachineTemplate P → o.deletionTimestamp = true) ∧
    (∀ C, s.callOf (.template req ch) = some (.deleteRolesForIRSA C) →
      ∃ c : Ctx, s.templateRuns req = some (.deleteRolesForIRSA c) ∧
        Key.getClusterIDFromLabels c.t.labels = some C ∧
        ∀ o ∈ s.store.objects, o.spec = .awsMachineTemplate c.t.spec.iamInstanceProfile →
          o.deletionTimestamp = true) := by
  have hdel : ∀ c, (s.templateRuns req = some (.deleteRole c) ∨
      s.templateRuns req = some (.deleteRolesForIRSA c)) →
      ∀ o ∈ s.store.objects, o.spec = .awsMachineTemplate c.t.spec.iamInstanceProfile →
        o.deletionTimestamp = true := by
    rintro c (hp | hp) o ho hspec
    all_goals
      have hok := hs.wf.template req _ hp
      exact ((hok.1.tracks.same o ho (hs.unshared req _ hp o ho hspec)).2.2 hok.2)
  constructor
  · intro P hcall
    obtain ⟨pc, hpc | ⟨-, rfl⟩, hc⟩ := callOf_template hcall
    · cases pc <;> simp only [Pc.call, Option.some.injEq, Call.deleteRole.injEq, reduceCtorEq] at hc
      rename_i c
      subst hc
      exact hdel c (.inl hpc)
    · cases hc
  · intro C hcall
    obtain ⟨pc, hpc | ⟨-, rfl⟩, hc⟩ := callOf_template hcall
    · cases pc <;> simp only [Pc.call, Option.some.injEq, Call.deleteRolesForIRSA.injEq, reduceCtorEq] at hc
      rename_i c
      subst hc
      exact ⟨c, hpc, (hs.wf.template req _ hpc).1.clusterName, hdel c (.inr hpc)⟩
    · cases hc

theorem rollover_irsa_call_from_unshared_profile :
    ∃ c : Ctx, rolloverState.templateRuns oldRequest = some (.deleteRolesForIRSA c) ∧
      Key.getClusterIDFromLabels c.t.labels = some "c" ∧
      ∀ o ∈ rolloverState.store.objects, o.spec = .awsMachineTemplate c.t.spec.iamInstanceProfile →
        o.deletionTimestamp = true :=
  (delete_calls_only_when_unused
    (Reachable.run _ (.init _) fun _ ha _ => by rw [List.eq_of_mem_replicate ha]; trivial)
    oldRequest .ok).2 "c" (by decide)

end Sys

end CapaIam

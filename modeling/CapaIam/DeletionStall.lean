import CapaIam.WellFormed

/-!
# No silent stall on deletion

A reconcile that returns a nil error and no requeue is not called again for the object until
the object changes. For a deleting object the controller has claimed that is only safe once its
finalizer is gone. `Reconcile` returns that way early when the object lacks the CAPI watch label
(and, for a template, a role label or an `IAMInstanceProfile`), a deliberate "ignoring this CR"
guard that keeps the finalizer (`deleting_template_ignored_with_finalizer`).

Past those guards the deletion path does not stall silently: a template reconcile that read a
deleting template with the watch label, a role label, an `IAMInstanceProfile` and the finalizer
returns a nil error and no requeue only after the template's finalizer is gone from the object
of its uid, and a control-plane reconcile returns that way only for an object without the watch
label (`nil_return_releases_claimed_object`). Both come from `Sys.Wf`, so they hold whatever
the environment does.
-/

namespace CapaIam

namespace Sys

/-- A claimed template being deleted whose watch label is gone. -/
def unwatchedTemplate : Obj :=
  ⟨0, "ns", "tmpl", .awsMachineTemplate "profile", ⟨some "c", none, some "control-plane"⟩, true,
    [controlPlaneFinalizer]⟩

def unwatchedStore : Store where
  objects := [unwatchedTemplate]
  nextUid := 1
  nodup := by decide
  uid_nodup := by decide
  uid_lt := by decide

def unwatchedRequest : NamespacedName := ⟨"ns", "tmpl"⟩

def unwatchedState : Sys := (Sys.init unwatchedStore).run ⟨true⟩ [.template unwatchedRequest .ok]

/-- Its reconcile returns a nil error and no requeue and leaves the finalizer in place. -/
theorem deleting_template_ignored_with_finalizer :
    Reachable ⟨true⟩ (fun _ _ => True) unwatchedState ∧
      unwatchedState.templateRuns unwatchedRequest =
        some (.returned (some unwatchedTemplate) (⟨false⟩, none)) ∧
      unwatchedTemplate.deletionTimestamp = true ∧
      unwatchedState.store.carries unwatchedTemplate.ref controlPlaneFinalizer = true :=
  ⟨Reachable.run _ (.init _) fun _ _ _ => trivial, by decide, rfl, by decide⟩

/-! ### Past the guards -/

open AWSMachineTemplateReconciler in
/-- A nil return with no requeue from a deletion run of a watched, labelled, claimed template
comes after its finalizer is removed; from a control-plane reconcile it means the object lacks
the watch label. -/
theorem nil_return_releases_claimed_object {cfg : AWSMachineTemplateReconciler}
    {adm : Sys → Action → Prop} {s : Sys} (hs : Reachable cfg adm s) :
    (∀ req t, s.templateRuns req = some (.returned (some t) (⟨false⟩, none)) →
      t.deletionTimestamp = true → Key.hasCapiWatchLabel t.labels = true → roleOf t.labels ≠ none →
      t.spec.iamInstanceProfile ≠ "" → controlPlaneFinalizer ∈ t.finalizers → s.store.Released t) ∧
    (∀ req a, s.controlPlaneRuns req = some (.returned (some a) (⟨false⟩, none)) →
      Key.hasCapiWatchLabel a.labels = false) :=
  ⟨fun req t hr => ((hs.wf.template req _ hr) t rfl).2 rfl,
    fun req a hr => ((hs.wf.controlPlane req _ hr) a rfl).2 rfl⟩

/-- A claimed bastion template being deleted, and its cluster. -/
def claimedTemplate : Obj :=
  ⟨1, "ns", "bastion", .awsMachineTemplate "bastion-profile",
    ⟨some "c", some "capi", some "bastion"⟩, true, [controlPlaneFinalizer]⟩

def claimedStore : Store where
  objects := [⟨0, "ns", "cluster", .awsCluster, ⟨some "c", none, none⟩, false, []⟩, claimedTemplate]
  nextUid := 2
  nodup := by decide
  uid_nodup := by decide
  uid_lt := by decide

def claimedRequest : NamespacedName := ⟨"ns", "bastion"⟩

/-- The whole deletion run: `Get`, cluster, session, guard, `DeleteRole`, cluster lookup, five
patches of the template (the first removes the finalizer), and the missing `ConfigMap`. -/
def claimedState : Sys :=
  (Sys.init claimedStore).run ⟨false⟩ (List.replicate 14 (.template claimedRequest .ok))

theorem claimed_template_released :
    Reachable ⟨false⟩ (fun _ _ => True) claimedState ∧ claimedState.store.Released claimedTemplate :=
  have hs : Reachable ⟨false⟩ (fun _ _ => True) claimedState := Reachable.run _ (.init _) fun _ _ _ => trivial
  ⟨hs, (nil_return_releases_claimed_object hs).1 claimedRequest claimedTemplate (by decide) rfl rfl
    (by decide) (by decide) (by decide)⟩

end Sys

end CapaIam

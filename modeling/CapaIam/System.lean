import CapaIam.ManagedControlPlane
import Mathlib.Logic.Function.Basic

/-!
# The controllers and their environment as one system

`Sys` is the store, IAM, and the reconciles in flight: one work queue per controller, keyed by
the request, never running two reconciles of one request at once (controller-runtime's
guarantee). A step is one call of one reconcile, started on an idle request (its `Get`) or
continued where it stands; a returned reconcile is released by its next step. Reconciles of
different requests interleave call by call, and every call may fail (`Choice`).

The environment creates objects, edits labels, deletes objects and lets other writers add or
remove their own finalizers, each as one atomic write. A step that is not enabled changes
nothing, so `Sys.step` is total and a run is a fold over a list of actions.

Two ghost lists record what the shared-role guard leaves behind: `retained` holds the
instance-profile names whose template a deletion run released after `isRoleUsedElsewhere`
answered true, while the role still exists; `retainedIRSA` the clusters whose IRSA roles that
release left in place.
-/

namespace CapaIam

/-- `types.NamespacedName`: a request. -/
structure NamespacedName where
  ns : String
  name : String
  deriving DecidableEq, Repr

def NamespacedName.ref (req : NamespacedName) (k : Kind) : ObjRef := ⟨k, req.ns, req.name⟩

/-- What the environment does, each an atomic write to the store. -/
inductive EnvAction
  | create (o : Obj)
  | setLabels (r : ObjRef) (l : Labels)
  | delete (r : ObjRef)
  /-- Another writer adds its own finalizer `f`. -/
  | addFinalizer (r : ObjRef) (f : String)
  /-- Another writer removes its own finalizer `f`. -/
  | removeFinalizer (r : ObjRef) (f : String)
  deriving DecidableEq, Repr

/-- The finalizers written by the controllers; other writers use other names. -/
def controllerFinalizer (f : String) : Bool :=
  f == controlPlaneFinalizer || f == irsaFinalizer

@[simp] theorem controllerFinalizer_controlPlaneFinalizer : controllerFinalizer controlPlaneFinalizer = true := by
  simp [controllerFinalizer]

@[simp] theorem controllerFinalizer_irsaFinalizer : controllerFinalizer irsaFinalizer = true := by
  simp [controllerFinalizer]

namespace Store

/-- The environment's write, or nothing when the API server refuses it: a taken name, a missing
object, a new finalizer on an object being deleted, or a controller's finalizer. -/
def envApply (s : Store) : EnvAction → Store
  | .create o => (s.create o).getD s
  | .setLabels r l => s.update r (.labels l)
  | .delete r => s.update r .delete
  | .addFinalizer r f =>
    match s.get r with
    | some o =>
      if controllerFinalizer f || o.deletionTimestamp then s
      else s.update r (.finalizers (Controllerutil.addFinalizer o.finalizers f))
    | none => s
  | .removeFinalizer r f =>
    match s.get r with
    | some o =>
      if controllerFinalizer f then s
      else s.update r (.finalizers (Controllerutil.removeFinalizer o.finalizers f))
    | none => s

theorem nextUid_le_envApply {s : Store} (e : EnvAction) : s.nextUid ≤ (s.envApply e).nextUid := by
  cases e with
  | create o =>
    cases h : s.create o with
    | none => simp [envApply, h]
    | some st => simp [envApply, h, nextUid_create h]
  | addFinalizer r f => simp only [envApply]; split <;> (try split) <;> simp
  | removeFinalizer r f => simp only [envApply]; split <;> (try split) <;> simp
  | _ => simp [envApply]

def carries (s : Store) (r : ObjRef) (f : String) : Bool :=
  match s.get r with
  | some o => o.finalizers.contains f
  | none => false

theorem carries_eq_true {s : Store} {r : ObjRef} {f : String} :
    s.carries r f = true ↔ ∃ o ∈ s.objects, o.ref = r ∧ f ∈ o.finalizers := by
  constructor
  · unfold carries
    split
    · rename_i o h
      exact fun hf => ⟨o, mem_of_get h, ref_of_get h, by simpa using hf⟩
    · exact fun h => by cases h
  · rintro ⟨o, ho, rfl, hf⟩
    simp [carries, get_ref ho, hf]

end Store

inductive Action
  /-- The next call of the reconcile of an `AWSMachineTemplate`. -/
  | template (req : NamespacedName) (ch : Choice)
  /-- The next call of the reconcile of an `AWSManagedControlPlane`. -/
  | controlPlane (req : NamespacedName) (ch : Choice)
  | env (e : EnvAction)
  deriving DecidableEq, Repr

structure Sys where
  store : Store
  iam : IAM
  templateRuns : NamespacedName → Option AWSMachineTemplateReconciler.Pc
  controlPlaneRuns : NamespacedName → Option AWSManagedControlPlaneReconciler.Pc
  retained : List String
  retainedIRSA : List String

namespace Sys

def world (s : Sys) : World := ⟨s.store, s.iam⟩

@[simp] theorem world_store (s : Sys) : s.world.store = s.store := rfl

@[simp] theorem world_iam (s : Sys) : s.world.iam = s.iam := rfl

/-- A store with no reconcile in flight and no role created yet. -/
def init (st : Store) : Sys :=
  ⟨st, ⟨[], []⟩, fun _ => none, fun _ => none, [], []⟩

open AWSMachineTemplateReconciler in
/-- What a step of a template reconcile at `pc` adds to the ghost lists: a deletion run of a
template whose guard answered true releases the template's finalizer. -/
def sharedRelease (cfg : AWSMachineTemplateReconciler) (before after : Store) :
    Pc → List String × List String
  | .removeFinalizer c true .awsMachineTemplate _ _ =>
    if before.carries c.t.ref controlPlaneFinalizer && !after.carries c.t.ref controlPlaneFinalizer then
      ([c.t.spec.iamInstanceProfile],
        if c.role = .controlPlaneRole ∧ cfg.enableRoute53Role then [c.clusterName] else [])
    else ([], [])
  | _ => ([], [])

/-- One call of the reconcile of the `AWSMachineTemplate` `req`. -/
def stepTemplate (cfg : AWSMachineTemplateReconciler) (s : Sys) (req : NamespacedName)
    (ch : Choice) : Sys :=
  match s.templateRuns req with
  | some (.returned _ _) => { s with templateRuns := Function.update s.templateRuns req none }
  | p =>
    let pc := p.getD .get
    match pc.call req.ns req.name with
    | none => s
    | some c =>
      let w := (s.world.exec c ch).1
      let g := sharedRelease cfg s.store w.store pc
      { s with
        store := w.store
        iam := w.iam
        templateRuns := Function.update s.templateRuns req
          (some (pc.next cfg (s.world.exec c ch).2))
        retained := (g.1 ++ s.retained).filter (w.iam.roles.contains ·)
        retainedIRSA := (g.2 ++ s.retainedIRSA).filter (w.iam.irsaRoles.contains ·) }

/-- One call of the reconcile of the `AWSManagedControlPlane` `req`. -/
def stepControlPlane (s : Sys) (req : NamespacedName) (ch : Choice) : Sys :=
  match s.controlPlaneRuns req with
  | some (.returned _ _) =>
    { s with controlPlaneRuns := Function.update s.controlPlaneRuns req none }
  | p =>
    let pc := p.getD .get
    match pc.call req.ns req.name with
    | none => s
    | some c =>
      let w := (s.world.exec c ch).1
      { s with
        store := w.store
        iam := w.iam
        controlPlaneRuns := Function.update s.controlPlaneRuns req
          (some (pc.next (s.world.exec c ch).2))
        retained := s.retained.filter (w.iam.roles.contains ·)
        retainedIRSA := s.retainedIRSA.filter (w.iam.irsaRoles.contains ·) }

def step (cfg : AWSMachineTemplateReconciler) (s : Sys) : Action → Sys
  | .template req ch => s.stepTemplate cfg req ch
  | .controlPlane req ch => s.stepControlPlane req ch
  | .env e => { s with store := s.store.envApply e }

/-- The call an action makes, if it is a reconcile's call. -/
def callOf (s : Sys) : Action → Option Call
  | .template req _ =>
    match s.templateRuns req with
    | some (.returned _ _) => none
    | p => (p.getD .get).call req.ns req.name
  | .controlPlane req _ =>
    match s.controlPlaneRuns req with
    | some (.returned _ _) => none
    | p => (p.getD .get).call req.ns req.name
  | .env _ => none

def run (cfg : AWSMachineTemplateReconciler) (s : Sys) (as : List Action) : Sys :=
  as.foldl (step cfg) s

end Sys

/-- The states reached from a store by actions that `adm` admits. `adm` is where a result
restricts the environment; `fun _ _ => True` admits every run. -/
inductive Reachable (cfg : AWSMachineTemplateReconciler) (adm : Sys → Action → Prop) : Sys → Prop
  | init (st : Store) : Reachable cfg adm (Sys.init st)
  | step {s : Sys} (a : Action) : Reachable cfg adm s → adm s a → Reachable cfg adm (s.step cfg a)

/-- A run from a reachable state by actions that are always admitted is reachable. -/
theorem Reachable.run {cfg : AWSMachineTemplateReconciler} {adm : Sys → Action → Prop} :
    ∀ {s : Sys} (as : List Action), Reachable cfg adm s → (∀ a ∈ as, ∀ s', adm s' a) →
      Reachable cfg adm (s.run cfg as)
  | _, [], h, _ => h
  | _, a :: as, h, ha =>
    Reachable.run as (.step a h (ha a (List.mem_cons_self a as) _)) fun b hb => ha b (List.mem_cons_of_mem a hb)

end CapaIam

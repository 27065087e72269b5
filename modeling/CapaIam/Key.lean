import Mathlib.Data.List.Basic

/-!
# Labels, role types and finalizers (`pkg/key`, `controllerutil`)

A reconcile decides what an object is from three of its labels: the CAPI watch filter, the role
label and the cluster name (`key.HasCapiWatchLabel`, `key.IsControlPlaneAWSMachineTemplate`,
`key.IsBastionAWSMachineTemplate`, `key.GetClusterIDFromLabels`). It guards the object with the
finalizer `key.FinalizerName(role)`, added and removed through `controllerutil`.

Only `FinalizerName` and the old one-result `GetClusterIDFromLabels` are under `src/pkg/key`;
the label predicates the controllers call and the role-type strings of package `iam` are not,
and are modelled from the spec below. Labels the controllers never read are left out.
-/

namespace CapaIam

/-- The role types of package `iam`: `iam.ControlPlaneRole`, `iam.BastionRole`, `iam.IRSARole`. -/
inductive RoleType
  | controlPlaneRole
  | bastionRole
  | irsaRole
  deriving DecidableEq, Repr

/-- Modelled from the spec: the string constants of package `iam` are not under `src/`. The spec
lists the three role types (§3); the test's policy names `control-plane-…` and `irsa-role-…` give
two of the strings. Only their being distinct matters below. -/
def RoleType.name : RoleType → String
  | .controlPlaneRole => "control-plane"
  | .bastionRole => "bastion"
  | .irsaRole => "irsa-role"

/-- The labels a reconcile reads: `cluster.x-k8s.io/cluster-name` (`key.ClusterNameLabel`), the
CAPI watch-filter label (`key.ClusterWatchFilterLabel`) and the role label (`key.ClusterRole`). -/
structure Labels where
  clusterName : Option String
  watchFilter : Option String
  clusterRole : Option String
  deriving DecidableEq, Repr

namespace Key

/-- `key.FinalizerName`. -/
def finalizerName (roleName : String) : String :=
  "capa-iam-controller.finalizers.giantswarm.io/" ++ roleName

/-- Modelled from the spec: `key.HasCapiWatchLabel` is not under `src/`; the controllers' log
line names the label value `capi`. -/
def hasCapiWatchLabel (l : Labels) : Bool :=
  l.watchFilter == some ("capi")

/-- Modelled from the spec: `key.IsControlPlaneAWSMachineTemplate` is not under `src/`; the role
label names the role type. -/
def isControlPlaneAWSMachineTemplate (l : Labels) : Bool :=
  l.clusterRole == some RoleType.controlPlaneRole.name

/-- Modelled from the spec: `key.IsBastionAWSMachineTemplate` is not under `src/`. -/
def isBastionAWSMachineTemplate (l : Labels) : Bool :=
  l.clusterRole == some RoleType.bastionRole.name

/-- Modelled from the spec: the two-result `key.GetClusterIDFromLabels` the controllers call is
not under `src/` (`src/pkg/key` has the one-result version, which reads the label); it fails when
the cluster-name label is missing. -/
def getClusterIDFromLabels (l : Labels) : Option String :=
  l.clusterName

end Key

/-- `FinalizerName(iam.ControlPlaneRole)`: the finalizer of `AWSMachineTemplateReconciler`, on
templates of both roles, on the `AWSCluster` and on the cluster-values `ConfigMap`. -/
def controlPlaneFinalizer : String := Key.finalizerName RoleType.controlPlaneRole.name

/-- `FinalizerName(iam.IRSARole)`: the finalizer of `AWSManagedControlPlaneReconciler`. -/
def irsaFinalizer : String := Key.finalizerName RoleType.irsaRole.name

namespace Controllerutil

/-- `controllerutil.ContainsFinalizer`. -/
def containsFinalizer (fs : List String) (f : String) : Bool := fs.contains f

/-- `controllerutil.AddFinalizer`: appends `f` unless it is already there. -/
def addFinalizer (fs : List String) (f : String) : List String :=
  if fs.contains f then fs else fs ++ [f]

/-- `controllerutil.RemoveFinalizer`: drops every copy of `f`. -/
def removeFinalizer (fs : List String) (f : String) : List String :=
  fs.filter (· != f)

@[simp] theorem containsFinalizer_iff {fs : List String} {f : String} :
    containsFinalizer fs f = true ↔ f ∈ fs := by
  simp [containsFinalizer]

theorem containsFinalizer_eq_false {fs : List String} {f : String} :
    containsFinalizer fs f = false ↔ f ∉ fs := by
  simp [containsFinalizer]

@[simp] theorem mem_addFinalizer {fs : List String} {f g : String} :
    g ∈ addFinalizer fs f ↔ g ∈ fs ∨ g = f := by
  unfold addFinalizer
  split <;> simp_all [or_iff_left_of_imp]

theorem ne_addFinalizer {fs : List String} {f : String} (h : f ∉ fs) : fs ≠ addFinalizer fs f := by
  simp [addFinalizer, h]

theorem addFinalizer_ne_nil {fs : List String} {f : String} : addFinalizer fs f ≠ [] :=
  List.ne_nil_of_mem (mem_addFinalizer.2 (.inr rfl))

@[simp] theorem mem_removeFinalizer {fs : List String} {f g : String} :
    g ∈ removeFinalizer fs f ↔ g ∈ fs ∧ g ≠ f := by
  simp [removeFinalizer]

theorem ne_removeFinalizer {fs : List String} {f : String} (h : f ∈ fs) : fs ≠ removeFinalizer fs f :=
  fun e => by rw [e] at h; simp at h

theorem removeFinalizer_of_not_mem {fs : List String} {f : String} (h : f ∉ fs) :
    removeFinalizer fs f = fs :=
  List.filter_eq_self.2 fun g hg => by simpa using fun e : g = f => h (e ▸ hg)

end Controllerutil

end CapaIam

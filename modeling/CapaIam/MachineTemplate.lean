import CapaIam.World

/-!
# `AWSMachineTemplateReconciler.Reconcile`

A reconcile of an `AWSMachineTemplate` as a program over calls: `Pc` is where it stands, with
the locals of `Reconcile` bound so far; `Pc.call` is the call it makes there and `Pc.next` the
`Pc` the answer leads to. The reconcile reads the template, classifies it by its labels, builds
an IAM session, and then runs `reconcileDelete` (a deletion timestamp is set) or
`reconcileNormal`.

`reconcileDelete` deletes the role of the template's `IAMInstanceProfile` (and, for a
control-plane template with `EnableRoute53Role`, the cluster's IRSA roles) unless
`isRoleUsedElsewhere`, and then calls `removeFinalizer` on the `AWSCluster`, on the template and
on the cluster-values `ConfigMap`. `removeFinalizer` patches up to `maxPatchRetries` times and
refetches the object after an `Invalid` answer. `reconcileNormal` adds the finalizer, then
reconciles the role and, for a control-plane template, the IRSA roles.

`patch.NewHelper` only snapshots the in-memory object; its failure is one of the failures of the
`Patch` call that follows it.
-/

namespace CapaIam

/-- `ctrl.Result`: whether the request is queued again. -/
structure Result where
  requeue : Bool
  deriving DecidableEq, Repr

/-- `.Spec.Template.Spec.IAMInstanceProfile` of a template (empty on other kinds). -/
def Spec.iamInstanceProfile : Spec → String
  | .awsMachineTemplate p => p
  | _ => ""

/-- `AWSMachineTemplateReconciler`: of its fields only `EnableRoute53Role` steers a reconcile. -/
structure AWSMachineTemplateReconciler where
  enableRoute53Role : Bool
  deriving DecidableEq, Repr

namespace AWSMachineTemplateReconciler

def maxPatchRetries : Nat := 5

/-- The role of a template by its labels: control plane first, then bastion. -/
def roleOf (l : Labels) : Option RoleType :=
  if Key.isControlPlaneAWSMachineTemplate l then some .controlPlaneRole
  else if Key.isBastionAWSMachineTemplate l then some .bastionRole
  else none

theorem roleOf_eq_controlPlaneRole {l : Labels} :
    roleOf l = some .controlPlaneRole ↔ Key.isControlPlaneAWSMachineTemplate l = true := by
  unfold roleOf
  split
  · simp_all
  · split <;> simp_all

/-- The locals of `Reconcile` once the template is read and classified: the in-memory template
`awsMachineTemplate`, `role` and `clusterName`. -/
structure Ctx where
  t : Obj
  role : RoleType
  clusterName : String
  deriving DecidableEq, Repr

/-- The three objects `reconcileDelete` passes to `removeFinalizer`, in order. -/
inductive Target
  | awsCluster
  | awsMachineTemplate
  | configMap
  deriving DecidableEq, Repr

/-- Where a reconcile stands. -/
inductive Pc
  | get
  /-- `key.GetAWSClusterByName` in `Reconcile`. -/
  | getAWSCluster (c : Ctx)
  /-- A call answered only by success or failure, then `next`. -/
  | remote (r : Remote) (next : Pc)
  | isRoleUsedElsewhere (c : Ctx)
  | deleteRole (c : Ctx)
  | deleteRolesForIRSA (c : Ctx)
  /-- `key.GetAWSClusterByName` in `reconcileDelete`; `roleUsed` is the guard's answer. -/
  | getAWSClusterToRelease (c : Ctx) (roleUsed : Bool)
  /-- Attempt `i` of `removeFinalizer` on the in-memory object `obj`. -/
  | removeFinalizer (c : Ctx) (roleUsed : Bool) (tg : Target) (obj : Obj) (i : Nat)
  /-- The refetch of `obj` after attempt `i` was answered `Invalid`. -/
  | refetch (c : Ctx) (roleUsed : Bool) (tg : Target) (obj : Obj) (i : Nat)
  /-- The `Get` of the cluster-values `ConfigMap`. -/
  | getConfigMap (c : Ctx) (roleUsed : Bool)
  /-- `reconcileNormal`: `AddFinalizer` and `Patch`. -/
  | addFinalizer (c : Ctx)
  /-- `key.GetAWSClusterByName` in `reconcileNormal`. -/
  | getAWSClusterNormal (c : Ctx)
  | reconcileRole (c : Ctx)
  | reconcileRolesForIRSA (c : Ctx)
  /-- `Reconcile` has returned `res`, having read the template `t`. -/
  | returned (t : Option Obj) (res : Result × Option ErrKind)
  deriving DecidableEq, Repr

namespace Pc

def read : Pc → Option Obj
  | .get => none
  | .getAWSCluster c | .isRoleUsedElsewhere c | .deleteRole c | .deleteRolesForIRSA c
  | .getAWSClusterToRelease c _ | .removeFinalizer c _ _ _ _ | .refetch c _ _ _ _
  | .getConfigMap c _ | .addFinalizer c | .getAWSClusterNormal c | .reconcileRole c
  | .reconcileRolesForIRSA c => some c.t
  | .remote _ next => next.read
  | .returned t _ => t

def fail (p : Pc) (e : ErrKind) : Pc := .returned p.read (⟨false⟩, some e)

end Pc

/-- The call made at a `Pc`, for the request `req` (namespace, name). -/
def Pc.call (ns name : String) : Pc → Option Call
  | .get => some (.get ⟨.awsMachineTemplate, ns, name⟩)
  | .getAWSCluster c => some (.getAWSClusterByName c.clusterName ns)
  | .remote r _ => some (.remote r)
  | .isRoleUsedElsewhere c => some (.isRoleUsedElsewhere c.t.uid c.t.spec.iamInstanceProfile)
  | .deleteRole c => some (.deleteRole c.t.spec.iamInstanceProfile)
  | .deleteRolesForIRSA c => some (.deleteRolesForIRSA c.clusterName)
  | .getAWSClusterToRelease c _ => some (.getAWSClusterByName c.clusterName c.t.ns)
  | .removeFinalizer _ _ _ obj _ =>
    some (.patch obj.ref obj.finalizers
      (Controllerutil.removeFinalizer obj.finalizers controlPlaneFinalizer))
  | .refetch _ _ _ obj _ => some (.get obj.ref)
  | .getConfigMap c _ => some (.get ⟨.configMap, ns, c.clusterName ++ "-cluster-values"⟩)
  | .addFinalizer c =>
    some (.patch c.t.ref c.t.finalizers
      (Controllerutil.addFinalizer c.t.finalizers controlPlaneFinalizer))
  | .getAWSClusterNormal c => some (.getAWSClusterByName c.clusterName c.t.ns)
  | .reconcileRole c => some (.reconcileRole c.t.spec.iamInstanceProfile)
  | .reconcileRolesForIRSA c => some (.reconcileRolesForIRSA c.clusterName)
  | .returned _ _ => none

theorem Pc.call_eq_none {ns name : String} {p : Pc} : p.call ns name = none ↔ ∃ t r, p = .returned t r := by
  cases p <;> simp [Pc.call]

/-- `Reconcile` after the `Get`: the label checks and the empty-profile check. -/
def afterGet (t : Obj) : Pc :=
  if !Key.hasCapiWatchLabel t.labels then .returned (some t) (⟨false⟩, none)
  else
    match roleOf t.labels with
    | none => .returned (some t) (⟨false⟩, none)
    | some role =>
      match Key.getClusterIDFromLabels t.labels with
      | none => .returned (some t) (⟨false⟩, some .other)
      | some clusterName =>
        if t.spec.iamInstanceProfile = "" then .returned (some t) (⟨false⟩, none)
        else .getAWSCluster ⟨t, role, clusterName⟩

/-- The end of `Reconcile` before the branch: identity, session and `iam.New`, then
`reconcileDelete` or `reconcileNormal` (which first adds the finalizer if it is missing). -/
def session (c : Ctx) : Pc :=
  .remote .getAWSClusterRoleIdentity <| .remote .getAWSClientSession <| .remote .iamNew <|
    if c.t.deletionTimestamp then .isRoleUsedElsewhere c
    else if Controllerutil.containsFinalizer c.t.finalizers controlPlaneFinalizer then .getAWSClusterNormal c
    else .addFinalizer c

/-- What follows a finished `removeFinalizer` on `tg`: the next `removeFinalizer` (which returns
at once if the in-memory object lacks the finalizer), the `ConfigMap`'s `Get`, or the end. -/
def afterRemove (c : Ctx) (roleUsed : Bool) : Target → Pc
  | .awsCluster =>
    if Controllerutil.containsFinalizer c.t.finalizers controlPlaneFinalizer then
      .removeFinalizer c roleUsed .awsMachineTemplate c.t 1
    else .getConfigMap c roleUsed
  | .awsMachineTemplate => .getConfigMap c roleUsed
  | .configMap => .returned (some c.t) (⟨false⟩, none)

/-- `removeFinalizer` on the in-memory object `obj`. -/
def startRemove (c : Ctx) (roleUsed : Bool) (tg : Target) (obj : Obj) : Pc :=
  if Controllerutil.containsFinalizer obj.finalizers controlPlaneFinalizer then
    .removeFinalizer c roleUsed tg obj 1
  else afterRemove c roleUsed tg

/-- `reconcileNormal` once the role is reconciled: the IRSA roles of a control-plane template. -/
def afterReconcileRole (r : AWSMachineTemplateReconciler) (c : Ctx) : Pc :=
  if c.role = .controlPlaneRole ∧ r.enableRoute53Role then
    .remote .getAWSClusterRoleIdentity <| .remote .getAWSAccountID <| .remote .getBaseDomain <|
      .reconcileRolesForIRSA c
  else .returned (some c.t) (⟨false⟩, none)

/-- Where the answer `a` to the call at `p` leads. -/
def Pc.next (r : AWSMachineTemplateReconciler) : Pc → Resp → Pc
  | .get, .ok (.obj t) => afterGet t
  | .get, .error .notFound => .returned none (⟨false⟩, none)
  | .getAWSCluster c, .ok _ => session c
  | .remote _ next, .ok _ => next
  | .isRoleUsedElsewhere c, .ok (.bool roleUsed) =>
    if roleUsed then .getAWSClusterToRelease c true else .deleteRole c
  | .deleteRole c, .ok _ =>
    if c.role = .controlPlaneRole ∧ r.enableRoute53Role then .deleteRolesForIRSA c
    else .getAWSClusterToRelease c false
  | .deleteRolesForIRSA c, .ok _ => .getAWSClusterToRelease c false
  | .getAWSClusterToRelease c u, .ok (.obj awsCluster) => startRemove c u .awsCluster awsCluster
  | .removeFinalizer c u tg obj i, .ok _ =>
    let obj' := { obj with
      finalizers := Controllerutil.removeFinalizer obj.finalizers controlPlaneFinalizer }
    if i < maxPatchRetries then .removeFinalizer c u tg obj' (i + 1) else afterRemove c u tg
  | .removeFinalizer c u tg obj i, .error .invalid =>
    if i < maxPatchRetries then .refetch c u tg obj i else .returned (some c.t) (⟨false⟩, some .invalid)
  | .refetch c u tg _ i, .ok (.obj obj) => .removeFinalizer c u tg obj (i + 1)
  | .getConfigMap c u, .ok (.obj cm) => startRemove c u .configMap cm
  | .getConfigMap c _, .error .notFound => .returned (some c.t) (⟨false⟩, none)
  | .addFinalizer c, .ok _ => .getAWSClusterNormal c
  | .getAWSClusterNormal c, .ok _ => .reconcileRole c
  | .reconcileRole c, .ok _ => afterReconcileRole r c
  | .reconcileRolesForIRSA c, .ok _ => .returned (some c.t) (⟨false⟩, none)
  | p, .error e => p.fail e
  | p, .ok _ => p.fail .other

end AWSMachineTemplateReconciler

end CapaIam

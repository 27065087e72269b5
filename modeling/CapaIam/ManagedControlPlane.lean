import CapaIam.MachineTemplate

/-!
# `AWSManagedControlPlaneReconciler.Reconcile`

A reconcile of an `AWSManagedControlPlane` (an EKS control plane) as a program over calls, in
the shape of `MachineTemplate.lean`. It reads the object, takes the cluster name from its labels
and stops on a missing watch label (no requeue) or a missing `.spec.RoleName` (requeue). After
the identity, the session, `GetCallerIdentity` and `iam.New` it either deletes the cluster's IRSA
roles and removes its finalizer (a deletion timestamp is set), or adds its finalizer and
reconciles the IRSA roles. Every other nil return asks for a requeue.
-/

namespace CapaIam

/-- `.Spec.RoleName` of an `AWSManagedControlPlane` (none on other kinds). -/
def Spec.roleName : Spec → Option String
  | .awsManagedControlPlane rn => rn
  | _ => none

namespace AWSManagedControlPlaneReconciler

/-- The locals of `Reconcile` once the object is read: the in-memory `eksCluster`, its
`clusterName` and `*eksCluster.Spec.RoleName`. -/
structure Ctx where
  a : Obj
  clusterName : String
  roleName : String
  deriving DecidableEq, Repr

inductive Pc
  | get
  /-- A call answered only by success or failure, then `next`. -/
  | remote (r : Remote) (next : Pc)
  | deleteRolesForIRSA (c : Ctx)
  /-- `RemoveFinalizer` and `Patch` of the deleting object. -/
  | removeFinalizer (c : Ctx)
  /-- `AddFinalizer` and `Patch`. -/
  | addFinalizer (c : Ctx)
  | reconcileRolesForIRSA (c : Ctx)
  /-- `Reconcile` has returned `res`, having read the object `a`. -/
  | returned (a : Option Obj) (res : Result × Option ErrKind)
  deriving DecidableEq, Repr

namespace Pc

def read : Pc → Option Obj
  | .get => none
  | .deleteRolesForIRSA c | .removeFinalizer c | .addFinalizer c | .reconcileRolesForIRSA c =>
    some c.a
  | .remote _ next => next.read
  | .returned a _ => a

def fail (p : Pc) (e : ErrKind) : Pc := .returned p.read (⟨false⟩, some e)

/-- The call made at a `Pc`, for the request `req` (namespace, name). -/
def call (ns name : String) : Pc → Option Call
  | .get => some (.get ⟨.awsManagedControlPlane, ns, name⟩)
  | .remote r _ => some (.remote r)
  | .deleteRolesForIRSA c => some (.deleteRolesForIRSA c.clusterName)
  | .removeFinalizer c =>
    some (.patch c.a.ref c.a.finalizers (Controllerutil.removeFinalizer c.a.finalizers irsaFinalizer))
  | .addFinalizer c =>
    some (.patch c.a.ref c.a.finalizers (Controllerutil.addFinalizer c.a.finalizers irsaFinalizer))
  | .reconcileRolesForIRSA c => some (.reconcileRolesForIRSA c.clusterName)
  | .returned _ _ => none

theorem call_eq_none {ns name : String} {p : Pc} : p.call ns name = none ↔ ∃ a r, p = .returned a r := by
  cases p <;> simp [call]

end Pc

def requeue : Result × Option ErrKind := (⟨true⟩, none)

/-- The normal branch after the finalizer: account ID, OIDC URL, role ARN, IRSA roles. -/
def reconcileIRSA (c : Ctx) : Pc :=
  .remote .getAWSAccountID <| .remote .getIRSAOpenIDURlForEKS <| .remote .getRoleARN <|
    .reconcileRolesForIRSA c

/-- `Reconcile` after the `Get`: cluster name, watch label, role name, then the session and the
branch on the deletion timestamp. -/
def afterGet (a : Obj) : Pc :=
  match Key.getClusterIDFromLabels a.labels with
  | none => .returned (some a) (⟨false⟩, some .other)
  | some clusterName =>
    if !Key.hasCapiWatchLabel a.labels then .returned (some a) (⟨false⟩, none)
    else
      match a.spec.roleName with
      | none => .returned (some a) requeue
      | some roleName =>
        let c : Ctx := ⟨a, clusterName, roleName⟩
        .remote .getAWSClusterRoleIdentity <| .remote .getAWSClientSession <|
          .remote .getCallerIdentity <| .remote .iamNew <|
            if a.deletionTimestamp then .deleteRolesForIRSA c
            else if Controllerutil.containsFinalizer a.finalizers irsaFinalizer then reconcileIRSA c
            else .addFinalizer c

/-- Where the answer to the call at `p` leads. -/
def Pc.next : Pc → Resp → Pc
  | .get, .ok (.obj a) => afterGet a
  | .get, .error .notFound => .returned none (⟨false⟩, none)
  | .remote _ next, .ok _ => next
  | .deleteRolesForIRSA c, .ok _ =>
    if Controllerutil.containsFinalizer c.a.finalizers irsaFinalizer then .removeFinalizer c
    else .returned (some c.a) requeue
  | .removeFinalizer c, .ok _ => .returned (some c.a) requeue
  | .addFinalizer c, .ok _ => reconcileIRSA c
  | .reconcileRolesForIRSA c, .ok _ => .returned (some c.a) requeue
  | p, .error e => p.fail e
  | p, .ok _ => p.fail .other

end AWSManagedControlPlaneReconciler

end CapaIam

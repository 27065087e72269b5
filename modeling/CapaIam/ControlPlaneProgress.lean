import CapaIam.Progress
import CapaIam.Termination

/-!
# A control-plane reconcile run alone

What `AWSManagedControlPlaneReconciler.Reconcile` achieves when nothing interferes, in the terms
of `Progress.lean`. A reconcile of a live `AWSManagedControlPlane` that carries the watch label, a
cluster label and a role name puts `FinalizerName(IRSARole)` on the object and creates the IRSA
roles of its cluster (`irsaWorld`); a reconcile of one being deleted deletes those roles and
removes the finalizer (`irsaDeleteWorld`). Both return nil and ask to be queued again
(`alone_normal`, `alone_delete`).
-/

namespace CapaIam

namespace AWSManagedControlPlaneReconciler

/-- `Alone` for the reconcile of the request `req`. -/
abbrev Pc.Alone (req : NamespacedName) : Nat → Pc → World → Pc → World → Prop :=
  CapaIam.Alone (Pc.call req.ns req.name) Pc.next

/-- The world a normal reconcile of `c.a` leaves: the finalizer on the object and the IRSA roles
of its cluster. -/
def irsaWorld (c : Ctx) (w : World) : World where
  store :=
    if Controllerutil.containsFinalizer c.a.finalizers irsaFinalizer then w.store
    else w.store.update c.a.ref (.finalizers (Controllerutil.addFinalizer c.a.finalizers irsaFinalizer))
  iam := { w.iam with irsaRoles := w.iam.irsaRoles.insert c.clusterName }

def irsaCalls (c : Ctx) : Nat :=
  9 + if Controllerutil.containsFinalizer c.a.finalizers irsaFinalizer then 0 else 1

/-- The world a deletion reconcile of `c.a` leaves: the IRSA roles of its cluster deleted and the
finalizer removed from the object. -/
def irsaDeleteWorld (c : Ctx) (w : World) : World where
  store :=
    if Controllerutil.containsFinalizer c.a.finalizers irsaFinalizer then
      w.store.update c.a.ref (.finalizers (Controllerutil.removeFinalizer c.a.finalizers irsaFinalizer))
    else w.store
  iam := { w.iam with irsaRoles := w.iam.irsaRoles.filter (· != c.clusterName) }

def irsaDeleteCalls (c : Ctx) : Nat :=
  6 + if Controllerutil.containsFinalizer c.a.finalizers irsaFinalizer then 1 else 0

variable {req : NamespacedName} {w : World} {a : Obj} {C rn : String} {c : Ctx}

theorem alone_checks (ha : w.store.get (req.ref .awsManagedControlPlane) = some a)
    (hcl : Key.getClusterIDFromLabels a.labels = some C) (hwatch : Key.hasCapiWatchLabel a.labels = true)
    (hrn : a.spec.roleName = some rn) :
    Pc.Alone req 5 .get w
      (if a.deletionTimestamp then .deleteRolesForIRSA ⟨a, C, rn⟩
        else if Controllerutil.containsFinalizer a.finalizers irsaFinalizer then reconcileIRSA ⟨a, C, rn⟩
        else .addFinalizer ⟨a, C, rn⟩) w := by
  have ha' : w.store.get ⟨.awsManagedControlPlane, req.ns, req.name⟩ = some a := ha
  refine .cons rfl rfl ?_
  simp only [World.read, ha', Pc.next, afterGet, hcl, hwatch, hrn, Bool.not_true, Bool.false_eq_true,
    if_false]
  exact .cons rfl rfl (.cons rfl rfl (.cons rfl rfl (.cons rfl rfl (.refl _ _))))

theorem alone_reconcileIRSA :
    Pc.Alone req 4 (reconcileIRSA c) w (.returned (some c.a) requeue)
      ⟨w.store, { w.iam with irsaRoles := w.iam.irsaRoles.insert c.clusterName }⟩ :=
  .cons rfl rfl (.cons rfl rfl (.cons rfl rfl (.cons rfl rfl (.refl _ _))))

/-- A normal reconcile run alone makes `irsaCalls` calls, returns nil with a requeue, and leaves
`irsaWorld`. -/
theorem alone_normal (ha : w.store.get (req.ref .awsManagedControlPlane) = some a)
    (hcl : Key.getClusterIDFromLabels a.labels = some C) (hwatch : Key.hasCapiWatchLabel a.labels = true)
    (hrn : a.spec.roleName = some rn) (hlive : a.deletionTimestamp = false) :
    Pc.Alone req (irsaCalls ⟨a, C, rn⟩) .get w (.returned (some a) requeue) (irsaWorld ⟨a, C, rn⟩ w) := by
  have hA : Pc.Alone req 5 .get w _ w := alone_checks ha hcl hwatch hrn
  simp only [hlive, Bool.false_eq_true, if_false] at hA
  cases hf : Controllerutil.containsFinalizer a.finalizers irsaFinalizer
  · simp only [hf, Bool.false_eq_true, if_false] at hA
    have hB : Pc.Alone req 1 (.addFinalizer ⟨a, C, rn⟩) w (reconcileIRSA ⟨a, C, rn⟩) _ :=
      .cons rfl (World.write_patch_of_get (by rw [Store.ref_of_get ha]; exact ha)
        (Controllerutil.ne_addFinalizer (Controllerutil.containsFinalizer_eq_false.1 hf)) (by simp [hlive])) (.refl _ _)
    exact (hA.trans (hB.trans alone_reconcileIRSA)).cast (by simp [irsaCalls, hf]) (by simp [irsaWorld, hf])
  · simp only [hf, if_true] at hA
    exact (hA.trans alone_reconcileIRSA).cast (by simp [irsaCalls, hf]) (by simp [irsaWorld, hf])

theorem alone_deleteRolesForIRSA (hget : w.store.get c.a.ref = some c.a) :
    Pc.Alone req (if Controllerutil.containsFinalizer c.a.finalizers irsaFinalizer then 2 else 1)
      (.deleteRolesForIRSA c) w (.returned (some c.a) requeue) (irsaDeleteWorld c w) := by
  cases hf : Controllerutil.containsFinalizer c.a.finalizers irsaFinalizer
  · refine .cons rfl rfl ?_
    simp only [Pc.next, World.read, hf, Bool.false_eq_true, if_false, irsaDeleteWorld]
    exact .refl _ _
  · refine .cons rfl rfl ?_
    simp only [Pc.next, World.read, hf, if_true, irsaDeleteWorld]
    exact .cons rfl (World.write_patch_of_get hget
      (Controllerutil.ne_removeFinalizer (Controllerutil.containsFinalizer_iff.1 hf)) fun ⟨_, _, hm, hn⟩ =>
      hn (Controllerutil.mem_removeFinalizer.1 hm).1) (.refl _ _)

theorem alone_delete (ha : w.store.get (req.ref .awsManagedControlPlane) = some a)
    (hcl : Key.getClusterIDFromLabels a.labels = some C) (hwatch : Key.hasCapiWatchLabel a.labels = true)
    (hrn : a.spec.roleName = some rn) (hdel : a.deletionTimestamp = true) :
    Pc.Alone req (irsaDeleteCalls ⟨a, C, rn⟩) .get w (.returned (some a) requeue)
      (irsaDeleteWorld ⟨a, C, rn⟩ w) := by
  have hA : Pc.Alone req 5 .get w _ w := alone_checks ha hcl hwatch hrn
  simp only [hdel, if_true] at hA
  refine (hA.trans (alone_deleteRolesForIRSA (by rw [Store.ref_of_get ha]; exact ha))).cast ?_ rfl
  simp only [irsaDeleteCalls]
  split <;> rfl

end AWSManagedControlPlaneReconciler

namespace Sys

open AWSManagedControlPlaneReconciler

variable {cfg : AWSMachineTemplateReconciler} {s : Sys} {req : NamespacedName} {p : Pc} {c : Call}

/-- The system after `n` calls of the control-plane reconcile of `req` and nothing else, every
call going through. -/
def controlPlaneAlone (cfg : AWSMachineTemplateReconciler) (req : NamespacedName) (n : Nat) (s : Sys) :
    Sys :=
  s.run cfg (List.replicate n (.controlPlane req .ok))

/-- One call of the control-plane reconcile of `req` at `p`, going through. -/
theorem step_controlPlane_ok
    (hp : s.controlPlaneRuns req = some p ∨ s.controlPlaneRuns req = none ∧ p = .get)
    (hc : p.call req.ns req.name = some c) :
    (s.step cfg (.controlPlane req .ok)).controlPlaneRuns req = some (p.next (s.world.exec c .ok).2) ∧
      (s.step cfg (.controlPlane req .ok)).world = (s.world.exec c .ok).1 := by
  rcases step_controlPlane cfg s req .ok with ⟨t, r, hrun, -⟩ | ⟨pc, c', hpc, -, hc', hs⟩
  · rcases hp with hp | ⟨hp, -⟩ <;> rw [hp] at hrun <;> cases hrun
    cases hc
  · obtain rfl : pc = p := by
      rcases hp with hp | ⟨hp, rfl⟩ <;> rcases hpc with hpc | ⟨hpc, rfl⟩ <;> rw [hp] at hpc
      · exact (Option.some.inj hpc).symm
      · cases hpc
      · cases hpc
    rw [hc, Option.some.injEq] at hc'
    subst hc'
    rw [hs]
    exact ⟨by simp, rfl⟩

/-- The system running one control-plane reconcile alone does what `Alone` says. -/
theorem controlPlaneAlone_of_alone {n : Nat} {q : Pc} {w' : World}
    (h : Alone (Pc.call req.ns req.name) Pc.next n p s.world q w')
    (hp : s.controlPlaneRuns req = some p ∨ s.controlPlaneRuns req = none ∧ p = .get) :
    ((controlPlaneAlone cfg req n s).controlPlaneRuns req = some q ∨
        (controlPlaneAlone cfg req n s).controlPlaneRuns req = none ∧ q = .get) ∧
      (controlPlaneAlone cfg req n s).world = w' := by
  generalize hw : s.world = w at h
  induction h generalizing s with
  | refl => exact ⟨hp, hw⟩
  | step hc _ ih =>
    subst hw
    obtain ⟨hrun, hworld⟩ := step_controlPlane_ok hp hc
    exact ih (.inl hrun) hworld

variable {a : Obj} {C rn : String}

def eksStore : Store where
  objects := [eksControlPlane]
  nextUid := 1
  nodup := by decide
  uid_nodup := by decide
  uid_lt := by decide

end Sys

end CapaIam

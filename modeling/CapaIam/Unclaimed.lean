import CapaIam.ControlPlaneIsolation
/-!
# The controllers never claim an `AWSCluster` or a `ConfigMap`

`reconcileDelete` removes `FinalizerName(ControlPlaneRole)` from the `AWSCluster` and from the
cluster-values `ConfigMap` as well as from the template, but `reconcileNormal` adds it to the
template only, and reads the `AWSCluster` without patching it. The control-plane reconciles patch
only `AWSManagedControlPlane`s, and the other writers never write a controller's finalizer. So an
`AWSCluster` or a `ConfigMap` never gains the finalizer: once it lacks it, every later object with
its uid lacks it, over every run of both reconcilers and the other writers, any call failing
(`never_claims_cluster_or_config_map`).

A template reconcile's patch that writes the finalizer is the `AddFinalizer` patch of its own
template (`Pc.Ok.kind_of_patch`). So no step adds the finalizer to an object that is neither a
template nor a control plane (`unclaimed_step`), and by descent over the run neither does a run
(`unclaimed_run`).
-/

namespace CapaIam

variable {st : Store} {req : NamespacedName}

/-- A template reconcile's patch writes `FinalizerName(ControlPlaneRole)` only on its own template:
the `AddFinalizer` patch. Its `RemoveFinalizer` patches drop it. -/
theorem AWSMachineTemplateReconciler.Pc.Ok.kind_of_patch {p : AWSMachineTemplateReconciler.Pc}
    {z : ObjRef} {b m : List String} (h : p.Ok st req) (hc : p.call req.ns req.name = some (.patch z b m))
    (hm : controlPlaneFinalizer ∈ m) : z.kind = .awsMachineTemplate := by
  cases p with
  | addFinalizer c => cases hc; rw [h.1.ref]; rfl
  | removeFinalizer c u tg obj i => cases hc; simp at hm
  | _ => cases hc

namespace Sys

variable {cfg : AWSMachineTemplateReconciler} {s : Sys} {a : Action} {o o' : Obj}

/-- An object that is neither a template nor a control plane, and lacks the finalizer, lacks it
after any step: the step's patch is a template reconcile's, which writes the finalizer only on a
template, or a control-plane reconcile's, which writes only its own object; the environment keeps
the controllers' finalizers as they were. -/
theorem unclaimed_step (hwf : s.Wf) (hst : ObjStep s a o o') (hk : o.ref.kind ≠ .awsMachineTemplate)
    (hk' : o.ref.kind ≠ .awsManagedControlPlane) (hf : controlPlaneFinalizer ∉ o.finalizers) :
    controlPlaneFinalizer ∉ o'.finalizers := by
  rcases hst.finalizers with h | ⟨b, hb⟩ | ⟨-, henv⟩
  · rwa [h]
  · cases a with
    | template req ch =>
      obtain ⟨pc, hpc, hc⟩ := callOf_template hb
      exact fun hm => hk ((holds_of_run hpc (hwf.template req) trivial :
        AWSMachineTemplateReconciler.Pc.Ok s.store req pc).kind_of_patch hc hm)
    | controlPlane req ch =>
      obtain ⟨pc, hpc, hc⟩ := callOf_controlPlane hb
      have hz : o.ref = req.ref .awsManagedControlPlane :=
        (holds_of_run hpc (hwf.controlPlane req) trivial :
          AWSManagedControlPlaneReconciler.Pc.Ok s.store req pc).call_local hc
      exact absurd (by rw [hz]; rfl) hk'
    | env e => cases hb
  · exact fun hm => hf ((henv _ controllerFinalizer_controlPlaneFinalizer).1 hm)

/-- An object of an old uid after a run descends from the object of that uid before it; if that
one was neither a template nor a control plane and lacked the finalizer, so does its descendant. -/
theorem unclaimed_run :
    ∀ (as : List Action) (s : Sys), s.Wf → ∀ {o' : Obj}, o' ∈ (s.run cfg as).store.objects →
      o'.uid < s.store.nextUid → ∃ o ∈ s.store.objects, o.uid = o'.uid ∧
        (o.ref.kind ≠ .awsMachineTemplate → o.ref.kind ≠ .awsManagedControlPlane →
          controlPlaneFinalizer ∉ o.finalizers → controlPlaneFinalizer ∉ o'.finalizers)
  | [], _, _, _, h, _ => ⟨_, h, rfl, fun _ _ hf => hf⟩
  | a :: as, s, hwf, _, h, hu => by
    obtain ⟨o₁, h₁, hu₁, hd₁⟩ := unclaimed_run as (s.step cfg a) (hwf.step cfg a) h
      (Nat.lt_of_lt_of_le hu (nextUid_le_step cfg s a))
    obtain ⟨o, ho, hst⟩ := step_new_of_lt cfg s a h₁ (hu₁ ▸ hu)
    refine ⟨o, ho, hst.uid.symm.trans hu₁, fun hk hk' hf => hd₁ ?_ ?_ (unclaimed_step hwf hst hk hk' hf)⟩
    · rwa [hst.ref]
    · rwa [hst.ref]

/-- Take any reachable state and any continuation: reconciles of both kinds, in flight anywhere in
their runs, and writes of other actors, any call failing. An `AWSCluster` or a `ConfigMap` that
lacks `FinalizerName(ControlPlaneRole)` never gains it: every later object with its uid lacks it. -/
theorem never_claims_cluster_or_config_map {adm : Sys → Action → Prop} (hs : Reachable cfg adm s)
    (as : List Action) (ho : o ∈ s.store.objects) (hk : o.ref.kind = .awsCluster ∨ o.ref.kind = .configMap)
    (hf : controlPlaneFinalizer ∉ o.finalizers) (ho' : o' ∈ (s.run cfg as).store.objects)
    (hu : o'.uid = o.uid) : controlPlaneFinalizer ∉ o'.finalizers := by
  obtain ⟨o₀, h₀, hu₀, hd⟩ := unclaimed_run as s hs.wf ho' (hu ▸ s.store.uid_lt o ho)
  obtain rfl := List.inj_on_of_nodup_map s.store.uid_nodup h₀ ho (hu₀.trans hu)
  exact hd (by rcases hk with hk | hk <;> rw [hk] <;> decide)
    (by rcases hk with hk | hk <;> rw [hk] <;> decide) hf

/-- The cluster of `controlPlaneStore`, as stored, and once another writer has added its own
finalizer. -/
def controlPlaneStoreCluster : Obj := ⟨0, "ns", "cluster", .awsCluster, ⟨some "c", none, none⟩, false, []⟩

def otherClaimedCluster : Obj := { controlPlaneStoreCluster with finalizers := ["other"] }

/-- A reconcile of the control-plane template whose first call fails, another writer adding its own
finalizer to the cluster, and the normal reconcile of the template to its end. -/
def claimCluster : List Action :=
  [.template ⟨"ns", "cp"⟩ (.fail false), .template ⟨"ns", "cp"⟩ .ok,
    .env (.addFinalizer controlPlaneStoreCluster.ref "other")] ++ List.replicate 9 (.template ⟨"ns", "cp"⟩ .ok)

theorem control_plane_template_leaves_cluster_unclaimed :
    controlPlaneStoreCluster ∈ (init controlPlaneStore).store.objects ∧
      (controlPlaneStoreCluster.ref.kind = .awsCluster ∨ controlPlaneStoreCluster.ref.kind = .configMap) ∧
      controlPlaneFinalizer ∉ controlPlaneStoreCluster.finalizers ∧
      otherClaimedCluster ∈ ((init controlPlaneStore).run ⟨true⟩ claimCluster).store.objects ∧
      controlPlaneFinalizer ∉ otherClaimedCluster.finalizers :=
  have ho : controlPlaneStoreCluster ∈ (init controlPlaneStore).store.objects := by decide
  have hk : controlPlaneStoreCluster.ref.kind = .awsCluster ∨
      controlPlaneStoreCluster.ref.kind = .configMap := .inl rfl
  have hf : controlPlaneFinalizer ∉ controlPlaneStoreCluster.finalizers := by decide
  have ho' : otherClaimedCluster ∈ ((init controlPlaneStore).run ⟨true⟩ claimCluster).store.objects := by
    decide
  ⟨ho, hk, hf, ho', never_claims_cluster_or_config_map
    (show Reachable ⟨true⟩ (fun _ _ => True) (init controlPlaneStore) from .init _) claimCluster ho hk hf ho' rfl⟩

end Sys

end CapaIam

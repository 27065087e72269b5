import CapaIam.Progress

/-!
# A deletion reconcile run alone

What `reconcileDelete` achieves when nothing interferes. A reconcile of a template being deleted
asks `isRoleUsedElsewhere`; unless the role is used elsewhere it deletes the role and, for a
control-plane template with `EnableRoute53Role`, the IRSA roles of the cluster. It then runs
`removeFinalizer` on the `AWSCluster`, on the template and on the cluster-values `ConfigMap` when
there is one, and returns nil. A `removeFinalizer` that finds the finalizer makes
`maxPatchRetries` patches: the first removes it, the others patch the list onto itself
(`alone_removeFinalizer`).

`deleteWorld` is the world the reconcile leaves and `deleteCalls` the calls it makes
(`alone_delete`). In that world none of the three objects holds `FinalizerName(ControlPlaneRole)`,
and the role is gone unless another template uses it (`deleteWorld_releases`).
-/

namespace CapaIam

namespace Store

variable {st : Store} {r r' : ObjRef} {e : Edit} {o o' : Obj}

theorem get_update_of_ne (h : r' ≠ r) : (st.update r e).get r' = st.get r' :=
  Option.ext fun o => by
    simp only [Option.mem_def, get_eq_some]
    exact and_congr_left fun ho => mem_update_of_ne (by rw [ho]; exact h)

/-- The store once `removeFinalizer` is done with `o`: `FinalizerName(ControlPlaneRole)` gone
from the object of its name, if `o` had it. -/
def release (st : Store) (o : Obj) : Store :=
  if Controllerutil.containsFinalizer o.finalizers controlPlaneFinalizer then
    st.update o.ref (.finalizers (Controllerutil.removeFinalizer o.finalizers controlPlaneFinalizer))
  else st

theorem get_release_of_ne (h : r ≠ o.ref) : (st.release o).get r = st.get r := by
  unfold release
  split
  · exact get_update_of_ne h
  · rfl

theorem mem_release_of_ne (h : o'.ref ≠ o.ref) : o' ∈ (st.release o).objects ↔ o' ∈ st.objects := by
  unfold release
  split
  · exact mem_update_of_ne h
  · rfl

theorem release_clears (hget : st.get o.ref = some o) (ho' : o' ∈ (st.release o).objects)
    (hr : o'.ref = o.ref) : controlPlaneFinalizer ∉ o'.finalizers := by
  unfold release at ho'
  split at ho'
  · rw [finalizers_of_mem_update ho' hr]
    simp
  · rename_i hno
    rw [eq_of_mem_of_ref_eq ho' (mem_of_get hget) hr]
    simpa using hno

theorem mem_foldl_release_of_ne {xs : List Obj} (h : ∀ x ∈ xs, o'.ref ≠ x.ref) :
    o' ∈ (xs.foldl release st).objects ↔ o' ∈ st.objects := by
  induction xs generalizing st with
  | nil => rfl
  | cons x xs ih =>
    rw [List.foldl_cons, ih fun y hy => h y (List.mem_cons_of_mem x hy)]
    exact mem_release_of_ne (h x (List.mem_cons_self x xs))

theorem mem_foldl_release {xs : List Obj} (ho : o' ∈ (xs.foldl release st).objects) :
    (∃ x ∈ xs, o'.ref = x.ref) ∨ o' ∈ st.objects := by
  by_cases h : ∃ x ∈ xs, o'.ref = x.ref
  · exact .inl h
  · exact .inr ((mem_foldl_release_of_ne fun x hx e => h ⟨x, hx, e⟩).1 ho)

theorem foldl_release_clears {xs : List Obj} (hnd : (xs.map Obj.ref).Nodup)
    (hget : ∀ x ∈ xs, st.get x.ref = some x) (ho' : o' ∈ (xs.foldl release st).objects)
    (hr : ∃ x ∈ xs, o'.ref = x.ref) : controlPlaneFinalizer ∉ o'.finalizers := by
  induction xs generalizing st with
  | nil => simp at hr
  | cons x xs ih =>
    rw [List.map_cons, List.nodup_cons] at hnd
    have hne : ∀ y ∈ xs, x.ref ≠ y.ref := fun y hy h => hnd.1 (h ▸ List.mem_map_of_mem Obj.ref hy)
    rw [List.foldl_cons] at ho'
    obtain ⟨y, hy, hry⟩ := hr
    rcases List.mem_cons.1 hy with rfl | hy
    · have hrest : ∀ z ∈ xs, o'.ref ≠ z.ref := fun z hz => hry ▸ hne z hz
      exact release_clears (hget y (List.mem_cons_self y xs)) ((mem_foldl_release_of_ne hrest).1 ho') hry
    · refine ih hnd.2 (fun z hz => ?_) ho' ⟨y, hy, hry⟩
      rw [get_release_of_ne (fun h => hne z hz h.symm)]
      exact hget z (List.mem_cons_of_mem x hz)

end Store

namespace AWSMachineTemplateReconciler

/-- The calls of `removeFinalizer` on `o`: `maxPatchRetries` patches if `o` has the finalizer,
none otherwise. -/
def releaseCalls (o : Obj) : Nat :=
  if Controllerutil.containsFinalizer o.finalizers controlPlaneFinalizer then maxPatchRetries else 0

/-- IAM after the deletions of `reconcileDelete`: nothing is deleted if the role is used
elsewhere; otherwise the role, and for a control-plane template with `EnableRoute53Role` the IRSA
roles of the cluster. -/
def deleteIAM (cfg : AWSMachineTemplateReconciler) (c : Ctx) (roleUsed : Bool) (iam : IAM) : IAM :=
  if roleUsed then iam
  else
    { roles := iam.roles.filter (· != c.t.spec.iamInstanceProfile)
      irsaRoles :=
        if c.role = .controlPlaneRole ∧ cfg.enableRoute53Role then
          iam.irsaRoles.filter (· != c.clusterName)
        else iam.irsaRoles }

/-- The objects `reconcileDelete` passes to `removeFinalizer`, as the store holds them: the
`AWSCluster` `aws`, the template, and the cluster-values `ConfigMap` if there is one. -/
def deleteTargets (c : Ctx) (aws : Obj) (st : Store) : List Obj :=
  [aws, c.t] ++ (st.get ⟨.configMap, c.t.ns, c.clusterName ++ "-cluster-values"⟩).toList

/-- The world a deletion reconcile of `c.t` leaves, `aws` being its `AWSCluster`: the deletions
of `deleteIAM`, and the finalizer released from each of `deleteTargets` in turn. -/
def deleteWorld (cfg : AWSMachineTemplateReconciler) (c : Ctx) (aws : Obj) (w : World) : World where
  store := (deleteTargets c aws w.store).foldl Store.release w.store
  iam := deleteIAM cfg c (w.store.isRoleUsedElsewhere c.t.uid c.t.spec.iamInstanceProfile) w.iam

def deleteCalls (cfg : AWSMachineTemplateReconciler) (c : Ctx) (aws : Obj) (st : Store) : Nat :=
  8 + (if st.isRoleUsedElsewhere c.t.uid c.t.spec.iamInstanceProfile then 0
      else if c.role = .controlPlaneRole ∧ cfg.enableRoute53Role then 2 else 1) +
    (deleteTargets c aws st).foldr (fun o n => releaseCalls o + n) 0

variable {cfg : AWSMachineTemplateReconciler} {req : NamespacedName} {w : World} {c : Ctx}
  {u : Bool} {tg : Target} {o t aws : Obj} {role : RoleType} {C : String}

/-! ### `removeFinalizer` -/

/-- The attempts of `removeFinalizer` once the in-memory object lacks the finalizer: each patches
the list onto itself and writes nothing. -/
theorem alone_removeFinalizer_idle (hno : controlPlaneFinalizer ∉ o.finalizers) (k : Nat) :
    ∀ i, i + k = maxPatchRetries →
      Pc.Alone cfg req (k + 1) (.removeFinalizer c u tg o i) w (afterRemove c u tg) w := by
  have hw : w.write (.patch o.ref o.finalizers
      (Controllerutil.removeFinalizer o.finalizers controlPlaneFinalizer)) = .ok w := by
    rw [Controllerutil.removeFinalizer_of_not_mem hno]
    exact World.write_patch_self
  induction k with
  | zero =>
    intro i hi
    refine .cons rfl hw ?_
    simp only [Pc.next, World.read, if_neg (show ¬i < maxPatchRetries by omega)]
    exact .refl _ _
  | succ k ih =>
    intro i hi
    refine .cons rfl hw ?_
    simp only [Pc.next, World.read, if_pos (show i < maxPatchRetries by omega),
      Controllerutil.removeFinalizer_of_not_mem hno]
    exact ih (i + 1) (by omega)

/-- `removeFinalizer` on an object that has the finalizer and is as the store holds it: the first
patch removes the finalizer, and the later attempts write nothing. -/
theorem alone_removeFinalizer (hget : w.store.get o.ref = some o)
    (hin : controlPlaneFinalizer ∈ o.finalizers) :
    Pc.Alone cfg req maxPatchRetries (.removeFinalizer c u tg o 1) w (afterRemove c u tg)
      ⟨w.store.update o.ref
        (.finalizers (Controllerutil.removeFinalizer o.finalizers controlPlaneFinalizer)), w.iam⟩ := by
  have hw := World.write_patch_of_get hget (Controllerutil.ne_removeFinalizer hin) fun ⟨_, _, hf, hn⟩ =>
    hn (Controllerutil.mem_removeFinalizer.1 hf).1
  refine Alone.cast (.cons rfl hw ?_) (show maxPatchRetries - 2 + 1 + 1 = maxPatchRetries by decide) rfl
  simp only [Pc.next, World.read, if_pos (show 1 < maxPatchRetries by decide)]
  exact alone_removeFinalizer_idle (by simp) _ 2 (by decide)

theorem alone_startRemove {st : Store} {iam : IAM} (hget : st.get o.ref = some o) :
    Pc.Alone cfg req (releaseCalls o) (startRemove c u tg o) ⟨st, iam⟩ (afterRemove c u tg)
      ⟨st.release o, iam⟩ := by
  cases hf : Controllerutil.containsFinalizer o.finalizers controlPlaneFinalizer
  · simp only [startRemove, releaseCalls, Store.release, hf, Bool.false_eq_true, if_false]
    exact .refl _ _
  · simp only [startRemove, releaseCalls, Store.release, hf, if_true]
    exact alone_removeFinalizer hget (Controllerutil.containsFinalizer_iff.1 hf)

/-! ### The phases of `reconcileDelete` -/

/-- `isRoleUsedElsewhere`, then unless the role is used elsewhere `DeleteRole` and, for a
control-plane template with `EnableRoute53Role`, `DeleteRolesForIRSA`. -/
theorem alone_deleteRoles :
    Pc.Alone cfg req
      ((if w.store.isRoleUsedElsewhere c.t.uid c.t.spec.iamInstanceProfile then 0
        else if c.role = .controlPlaneRole ∧ cfg.enableRoute53Role then 2 else 1) + 1)
      (.isRoleUsedElsewhere c) w
      (.getAWSClusterToRelease c (w.store.isRoleUsedElsewhere c.t.uid c.t.spec.iamInstanceProfile))
      ⟨w.store, deleteIAM cfg c (w.store.isRoleUsedElsewhere c.t.uid c.t.spec.iamInstanceProfile)
        w.iam⟩ := by
  refine .cons rfl rfl ?_
  cases hu : w.store.isRoleUsedElsewhere c.t.uid c.t.spec.iamInstanceProfile
  · simp only [World.read, hu, Pc.next, deleteIAM, Bool.false_eq_true, if_false]
    by_cases h : c.role = .controlPlaneRole ∧ cfg.enableRoute53Role
    · simp only [if_pos h]
      refine .cons rfl rfl ?_
      simp only [Pc.next, World.read, if_pos h]
      exact .cons rfl rfl (.refl _ _)
    · simp only [if_neg h]
      refine .cons rfl rfl ?_
      simp only [Pc.next, World.read, if_neg h]
      exact .refl _ _
  · simp only [World.read, hu, Pc.next, deleteIAM, if_true]
    exact .refl _ _

theorem alone_getAWSClusterToRelease {st : Store} {iam : IAM}
    (haws : st.getAWSClusterByName C t.ns = .ok aws) :
    Pc.Alone cfg req 1 (.getAWSClusterToRelease ⟨t, role, C⟩ u) ⟨st, iam⟩
      (startRemove ⟨t, role, C⟩ u .awsCluster aws) ⟨st, iam⟩ := by
  refine .cons rfl rfl ?_
  simp only [World.read, haws, Except.map, Pc.next]
  exact .refl _ _

/-- The `Get` of the cluster-values `ConfigMap`, `removeFinalizer` on it if it is there, and the
nil return. -/
theorem alone_getConfigMap :
    Pc.Alone cfg req
      ((w.store.get ⟨.configMap, req.ns, c.clusterName ++ "-cluster-values"⟩).toList.foldr
        (fun o n => releaseCalls o + n) 0 + 1)
      (.getConfigMap c u) w (.returned (some c.t) (⟨false⟩, none))
      ⟨(w.store.get ⟨.configMap, req.ns, c.clusterName ++ "-cluster-values"⟩).toList.foldl
        Store.release w.store, w.iam⟩ := by
  cases hcm : w.store.get ⟨.configMap, req.ns, c.clusterName ++ "-cluster-values"⟩ with
  | none =>
    refine .cons rfl rfl ?_
    simp only [World.read, hcm, Pc.next]
    exact .refl _ _
  | some cm =>
    simp only [Option.toList, List.foldr, Nat.add_zero, List.foldl]
    refine .cons rfl rfl ?_
    simp only [World.read, hcm, Pc.next]
    exact alone_startRemove (by rw [Store.ref_of_get hcm]; exact hcm)

/-! ### The whole deletion -/

/-- A deletion reconcile run alone makes `deleteCalls` calls, returns nil, and leaves
`deleteWorld`. -/
theorem alone_delete (ht : w.store.get (req.ref .awsMachineTemplate) = some t)
    (hwatch : Key.hasCapiWatchLabel t.labels = true) (hrole : roleOf t.labels = some role)
    (hcl : Key.getClusterIDFromLabels t.labels = some C) (hprof : t.spec.iamInstanceProfile ≠ "")
    (hdel : t.deletionTimestamp = true) (haws : w.store.getAWSClusterByName C req.ns = .ok aws) :
    Pc.Alone cfg req (deleteCalls cfg ⟨t, role, C⟩ aws w.store) .get w
      (.returned (some t) (⟨false⟩, none)) (deleteWorld cfg ⟨t, role, C⟩ aws w) := by
  have hA : Pc.Alone cfg req 5 .get w _ w := alone_checks ht hwatch hrole hcl hprof haws
  simp only [hdel, if_true] at hA
  have htref : t.ref = req.ref .awsMachineTemplate := Store.ref_of_get ht
  have hns : t.ns = req.ns := congrArg ObjRef.ns htref
  obtain ⟨hmem, hspec⟩ := Store.mem_of_getAWSClusterByName haws
  have hkind : aws.ref.kind = .awsCluster := by simp [Obj.ref, hspec, Spec.kind]
  have hta : t.ref ≠ aws.ref := fun h => by
    simpa [htref, hkind, NamespacedName.ref] using congrArg ObjRef.kind h
  have hcm : ((w.store.release aws).release t).get ⟨.configMap, req.ns, C ++ "-cluster-values"⟩ =
      w.store.get ⟨.configMap, t.ns, C ++ "-cluster-values"⟩ := by
    rw [Store.get_release_of_ne (fun h => by simpa [htref, NamespacedName.ref] using congrArg ObjRef.kind h),
      Store.get_release_of_ne (fun h => by simpa [hkind] using congrArg ObjRef.kind h), hns]
  have haws' : w.store.getAWSClusterByName C t.ns = .ok aws := by rw [hns]; exact haws
  have htget : (w.store.release aws).get t.ref = some t := by
    rw [Store.get_release_of_ne hta, htref]
    exact ht
  refine (hA.trans (alone_deleteRoles.trans ((alone_getAWSClusterToRelease haws').trans
    ((alone_startRemove (Store.get_ref hmem)).trans
      ((alone_startRemove htget).trans alone_getConfigMap))))).cast ?_ ?_
  · simp only [deleteCalls, deleteTargets, hcm, List.cons_append, List.nil_append, List.foldr_cons]
    omega
  · simp only [deleteWorld, deleteTargets, List.foldl_append, hcm]
    rfl

theorem get_deleteTargets {st : Store} {C' ns' : String} (ht : st.get c.t.ref = some c.t)
    (haws : st.getAWSClusterByName C' ns' = .ok aws) :
    ∀ x ∈ deleteTargets c aws st, st.get x.ref = some x := by
  simp only [deleteTargets, List.cons_append, List.nil_append, List.mem_cons, Option.mem_toList,
    Option.mem_def]
  rintro x (rfl | rfl | hx)
  · exact Store.get_ref (Store.mem_of_getAWSClusterByName haws).1
  · exact ht
  · rw [Store.ref_of_get hx]
    exact hx

theorem deleteTargets_nodup {st : Store} {C' ns' : String} (htk : c.t.ref.kind = .awsMachineTemplate)
    (haws : st.getAWSClusterByName C' ns' = .ok aws) : ((deleteTargets c aws st).map Obj.ref).Nodup := by
  have hak : aws.ref.kind = .awsCluster := by
    simp [Obj.ref, (Store.mem_of_getAWSClusterByName haws).2, Spec.kind]
  refine List.Nodup.of_map ObjRef.kind ?_
  cases hcm : st.get ⟨.configMap, c.t.ns, c.clusterName ++ "-cluster-values"⟩ with
  | none => simp [deleteTargets, hcm, hak, htk]
  | some cm =>
    have hck : cm.ref.kind = .configMap := by rw [Store.ref_of_get hcm]
    simp [deleteTargets, hcm, hak, htk, hck]

/-- What a deletion leaves: none of the cluster, the template and the cluster-values `ConfigMap`
holds the finalizer; unless the role is used elsewhere the role is gone, and for a control-plane
template with `EnableRoute53Role` the IRSA roles of the cluster as well. -/
theorem deleteWorld_releases {C' ns' : String} (ht : w.store.get t.ref = some t)
    (htk : t.ref.kind = .awsMachineTemplate) (haws : w.store.getAWSClusterByName C' ns' = .ok aws) :
    (∀ o ∈ (deleteWorld cfg ⟨t, role, C⟩ aws w).store.objects,
      (o.ref = aws.ref ∨ o.ref = t.ref ∨ o.ref = ⟨.configMap, t.ns, C ++ "-cluster-values"⟩) →
        controlPlaneFinalizer ∉ o.finalizers) ∧
    (w.store.isRoleUsedElsewhere t.uid t.spec.iamInstanceProfile = false →
      t.spec.iamInstanceProfile ∉ (deleteWorld cfg ⟨t, role, C⟩ aws w).iam.roles ∧
        (role = .controlPlaneRole → cfg.enableRoute53Role = true →
          C ∉ (deleteWorld cfg ⟨t, role, C⟩ aws w).iam.irsaRoles)) := by
  refine ⟨fun o ho hr => ?_, fun hu => ?_⟩
  · refine Store.foldl_release_clears (deleteTargets_nodup htk haws) (get_deleteTargets ht haws) ho ?_
    rcases hr with hr | hr | hr
    · exact ⟨aws, by simp [deleteTargets], hr⟩
    · exact ⟨t, by simp [deleteTargets], hr⟩
    · -- an object of that name that was not released was there before, so it was a target
      rcases Store.mem_foldl_release ho with h | ho₀
      · exact h
      · exact ⟨o, by simp [deleteTargets, ← hr, Store.get_ref ho₀], rfl⟩
  · simp only [deleteWorld, deleteIAM, hu, Bool.false_eq_true, if_false]
    refine ⟨by simp, fun hcp hr53 => ?_⟩
    simp [hcp, hr53]

end AWSMachineTemplateReconciler

end CapaIam

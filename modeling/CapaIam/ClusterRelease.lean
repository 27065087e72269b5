import CapaIam.Unclaimed
/-!
# The controller never holds the `AWSCluster`

`reconcileDelete` calls `removeFinalizer` on the cluster's `AWSCluster`, but no code adds
`FinalizerName(ControlPlaneRole)` to one: `reconcileNormal` adds it to the template only. So from
a store whose `AWSCluster`s lack the finalizer, under other writers that never create an
`AWSCluster` carrying it, no `AWSCluster` ever carries it, no template reconcile is ever in
`removeFinalizer` on one (`startRemove` finds the finalizer missing on the copy it read), and no
controller patch targets one (`controller_never_holds_cluster`).

Nothing then keeps the `AWSCluster` while a template of its cluster still has IAM cleanup
pending. Another writer may delete it, and the store drops it at once; the template's deletion
run then fails at `GetAWSClusterByName`, before any role is deleted
(`cluster_deleted_under_claimed_template`).
-/

namespace CapaIam

/-- No `AWSCluster` in the store carries `FinalizerName(ControlPlaneRole)`. -/
def Store.ClustersUnclaimed (st : Store) : Prop :=
  ∀ o ∈ st.objects, o.ref.kind = .awsCluster → controlPlaneFinalizer ∉ o.finalizers

instance (st : Store) : Decidable st.ClustersUnclaimed :=
  inferInstanceAs (Decidable (∀ o ∈ st.objects, _))

namespace AWSMachineTemplateReconciler

/-- Whether a reconcile at `p` is in `removeFinalizer` on an `AWSCluster`. -/
def Pc.onCluster : Pc → Bool
  | .removeFinalizer _ _ .awsCluster _ _ | .refetch _ _ .awsCluster _ _ => true
  | .remote _ next => next.onCluster
  | _ => false

variable {st : Store} {req : NamespacedName} {cfg : AWSMachineTemplateReconciler} {c : Ctx}
  {u : Bool}

theorem afterGet_onCluster (t : Obj) : (afterGet t).onCluster = false := by
  unfold afterGet
  repeat' split
  all_goals rfl

theorem session_onCluster : (session c).onCluster = false := by
  unfold session
  simp only [Pc.onCluster]
  split_ifs <;> rfl

theorem afterRemove_onCluster (tg : Target) : (afterRemove c u tg).onCluster = false := by
  cases tg
  case awsCluster => simp only [afterRemove]; split <;> rfl
  all_goals rfl

theorem afterReconcileRole_onCluster : (afterReconcileRole cfg c).onCluster = false := by
  unfold afterReconcileRole
  split <;> rfl

/-- `removeFinalizer` on a copy of an `AWSCluster` that lacks the finalizer returns at once. -/
theorem startRemove_onCluster {tg : Target} {obj : Obj}
    (h : tg = .awsCluster → controlPlaneFinalizer ∉ obj.finalizers) :
    (startRemove c u tg obj).onCluster = false := by
  unfold startRemove
  split
  · cases tg
    case awsCluster => exact absurd (Controllerutil.containsFinalizer_iff.1 ‹_›) (h rfl)
    all_goals rfl
  · exact afterRemove_onCluster tg

/-- A reconcile not in `removeFinalizer` on an `AWSCluster` does not enter it: the only way in is
the `AWSCluster` its lookup answered, which lacks the finalizer. -/
theorem Pc.onCluster_next {p : Pc} {resp : Resp} (hp : p.onCluster = false) (hst : st.ClustersUnclaimed)
    (ha : ∀ c v, p.call req.ns req.name = some c → resp = .ok v → c.Answered st v) :
    (p.next cfg resp).onCluster = false := by
  cases resp with
  | error e =>
    cases p with
    | removeFinalizer c u tg obj i =>
      cases e
      case invalid =>
        simp only [Pc.next]
        split
        · cases tg <;> exact hp
        · rfl
      all_goals rfl
    | getConfigMap | get => cases e <;> rfl
    | _ => rfl
  | ok v =>
    cases p with
    | get => cases v <;> first | exact afterGet_onCluster _ | rfl
    | remote _ next => exact hp
    | getAWSCluster => exact session_onCluster
    | isRoleUsedElsewhere c => cases v <;> first | (simp only [Pc.next]; split <;> rfl) | rfl
    | deleteRole c => simp only [Pc.next]; split <;> rfl
    | getAWSClusterToRelease c u =>
      obtain ⟨o, rfl, ho, hs⟩ := ha _ v rfl rfl
      exact startRemove_onCluster fun _ => hst o ho (by rw [Obj.ref, hs]; rfl)
    | removeFinalizer c u tg obj i =>
      simp only [Pc.next]
      split
      · cases tg <;> exact hp
      · exact afterRemove_onCluster tg
    | refetch c u tg obj i => cases v <;> first | (cases tg <;> exact hp) | rfl
    | getConfigMap c u => cases v <;> first | exact startRemove_onCluster nofun | rfl
    | reconcileRole => exact afterReconcileRole_onCluster
    | _ => rfl

/-- A template reconcile not in `removeFinalizer` on an `AWSCluster` patches a template or a
`ConfigMap`. -/
theorem Pc.Ok.patch_not_cluster {p : Pc} {z : ObjRef} {b m : List String} (h : p.Ok st req)
    (hp : p.onCluster = false) (hc : p.call req.ns req.name = some (.patch z b m)) :
    z.kind ≠ .awsCluster := by
  cases p with
  | addFinalizer c => cases hc; rw [h.1.ref]; nofun
  | removeFinalizer c u tg obj i =>
    cases hc
    cases tg with
    | awsCluster => cases hp
    | awsMachineTemplate => rw [h.2.2.1, h.1.ref]; nofun
    | configMap => exact fun hk => nomatch h.2.2.1.symm.trans hk
  | _ => cases hc

end AWSMachineTemplateReconciler

namespace Sys

variable {cfg : AWSMachineTemplateReconciler} {s : Sys} {a : Action}

/-- The environment's creations in `as` carry no controller finalizer on an `AWSCluster`. -/
def CreatesUnclaimed (as : List Action) : Prop :=
  ∀ o, Action.env (.create o) ∈ as → o.ref.kind = .awsCluster → controlPlaneFinalizer ∉ o.finalizers

/-- The store part and the runs part of the invariant: no `AWSCluster` carries the finalizer, and
no template reconcile is in `removeFinalizer` on one. -/
structure ClustersUnheld (s : Sys) : Prop where
  store : s.store.ClustersUnclaimed
  runs : ∀ req p, s.templateRuns req = some p → p.onCluster = false

theorem ClustersUnheld.init {st : Store} (h : st.ClustersUnclaimed) : (init st).ClustersUnheld :=
  ⟨h, fun _ _ h => nomatch h⟩

theorem ClustersUnheld.start (h : s.ClustersUnheld) {req : NamespacedName} {pc : AWSMachineTemplateReconciler.Pc}
    (hpc : s.templateRuns req = some pc ∨ s.templateRuns req = none ∧ pc = .get) : pc.onCluster = false := by
  rcases hpc with hpc | ⟨-, rfl⟩
  exacts [h.runs req pc hpc, rfl]

theorem ClustersUnheld.step (hwf : s.Wf) (h : s.ClustersUnheld) (hc : CreatesUnclaimed [a]) :
    (s.step cfg a).ClustersUnheld := by
  have hstore : (s.step cfg a).store.ClustersUnclaimed := fun o' ho' hk => by
    rcases step_new cfg s a ho' with ⟨o, ho, hst⟩ | ⟨o, rfl, hr, -, -, hf, -⟩
    · have hk₀ : o.ref.kind = .awsCluster := hst.ref ▸ hk
      exact unclaimed_step hwf hst (by rw [hk₀]; nofun) (by rw [hk₀]; nofun) (h.store o ho hk₀)
    · exact hf ▸ hc o (List.mem_singleton_self _) (hr ▸ hk)
  refine ⟨hstore, fun req p hp => ?_⟩
  rcases templateRun_step cfg s a req with heq | hnone | ⟨ch, pc, c, rfl, hpc, hc, hrun, hst, -⟩
  · exact h.runs req p (heq.symm.trans hp)
  · rw [hnone] at hp; cases hp
  · rw [hrun, Option.some.injEq] at hp
    subst hp
    rw [hst] at hstore
    exact AWSMachineTemplateReconciler.Pc.onCluster_next (h.start hpc) hstore (World.answered_of_call hc)

theorem ClustersUnheld.run : ∀ (as : List Action) {s : Sys}, s.Wf → s.ClustersUnheld →
    CreatesUnclaimed as → (s.run cfg as).ClustersUnheld
  | [], _, _, h, _ => h
  | a :: as, _, hwf, h, hc =>
    ClustersUnheld.run as (hwf.step cfg a)
      (h.step hwf fun o ho => hc o (List.mem_cons.2 (.inl (List.mem_singleton.1 ho))))
      fun o ho => hc o (List.mem_cons_of_mem a ho)

/-- In a state where no run is in `removeFinalizer` on an `AWSCluster`, no reconcile's call patches
an `AWSCluster`: the template reconciles patch their template or the `ConfigMap`, the
control-plane reconciles their own object. -/
theorem ClustersUnheld.patch_not_cluster (hwf : s.Wf) (h : s.ClustersUnheld) {z : ObjRef}
    {b m : List String} (hc : s.callOf a = some (.patch z b m)) : z.kind ≠ .awsCluster := by
  cases a with
  | template req ch =>
    obtain ⟨pc, hpc, hc⟩ := callOf_template hc
    exact (holds_of_run hpc (hwf.template req) trivial : AWSMachineTemplateReconciler.Pc.Ok s.store req pc)
      |>.patch_not_cluster (h.start hpc) hc
  | controlPlane req ch =>
    obtain ⟨pc, hpc, hc⟩ := callOf_controlPlane hc
    have hz : z = req.ref .awsManagedControlPlane :=
      (holds_of_run hpc (hwf.controlPlane req) trivial :
        AWSManagedControlPlaneReconciler.Pc.Ok s.store req pc).call_local hc
    rw [hz]; nofun
  | env e => cases hc

/-- Take a store whose `AWSCluster`s lack `FinalizerName(ControlPlaneRole)` and any run of both
reconcilers and other writers, any call failing, in which no `AWSCluster` is created carrying it.
Then no `AWSCluster` carries the finalizer, and no reconcile's next call patches an `AWSCluster`:
the controller never holds one. -/
theorem controller_never_holds_cluster {st : Store} (hst : st.ClustersUnclaimed) (as : List Action)
    (hc : CreatesUnclaimed as) :
    ((init st).run cfg as).store.ClustersUnclaimed ∧
      ∀ a z b m, ((init st).run cfg as).callOf a = some (.patch z b m) → z.kind ≠ .awsCluster :=
  have hwf : ((init st).run cfg as).Wf := (Reachable.run as (.init st) fun _ _ _ => trivial :
    Reachable cfg (fun _ _ => True) _).wf
  have h := ClustersUnheld.run as (.init st) (.init hst) hc
  ⟨h.store, fun _ _ _ _ hp => h.patch_not_cluster hwf hp⟩

/-- The normal reconcile of the control-plane template of `controlPlaneStore`, the template's
deletion, and its deletion run to its end: the run's `removeFinalizer` on the `AWSCluster` returns
at once. -/
def cleanDeletion : List Action :=
  List.replicate 13 (.template ⟨"ns", "cp"⟩ .ok) ++ [.env (.delete ⟨.awsMachineTemplate, "ns", "cp"⟩)] ++
    List.replicate 15 (.template ⟨"ns", "cp"⟩ .ok)

theorem clean_deletion_never_holds_cluster :
    controlPlaneStore.ClustersUnclaimed ∧ CreatesUnclaimed cleanDeletion ∧
      ((init controlPlaneStore).run ⟨true⟩ cleanDeletion).store.ClustersUnclaimed ∧
      ∀ a z b m, ((init controlPlaneStore).run ⟨true⟩ cleanDeletion).callOf a = some (.patch z b m) →
        z.kind ≠ .awsCluster :=
  have hst : controlPlaneStore.ClustersUnclaimed := by decide
  have hc : CreatesUnclaimed cleanDeletion := fun o ho => by simp [cleanDeletion] at ho
  ⟨hst, hc, controller_never_holds_cluster hst cleanDeletion hc⟩

/-- The normal reconcile of the control-plane template, another writer's deletion of the
`AWSCluster` and of the template, and the template's deletion run. -/
def clusterGone : List Action :=
  List.replicate 13 (.template ⟨"ns", "cp"⟩ .ok) ++
    [.env (.delete ⟨.awsCluster, "ns", "cluster"⟩), .env (.delete ⟨.awsMachineTemplate, "ns", "cp"⟩)] ++
    List.replicate 2 (.template ⟨"ns", "cp"⟩ .ok)

def clusterGoneState : Sys := (init controlPlaneStore).run ⟨true⟩ clusterGone

/-- The `AWSCluster` is gone while the template, being deleted, still carries the finalizer and its
roles still exist; the template's deletion run returned the lookup's error, having deleted
nothing. -/
theorem cluster_deleted_under_claimed_template :
    Reachable ⟨true⟩ (fun _ _ => True) clusterGoneState ∧
      clusterGoneState.store.get ⟨.awsCluster, "ns", "cluster"⟩ = none ∧
      clusterGoneState.store.carries ⟨.awsMachineTemplate, "ns", "cp"⟩ controlPlaneFinalizer = true ∧
      ((clusterGoneState.store.get ⟨.awsMachineTemplate, "ns", "cp"⟩).map Obj.deletionTimestamp) =
        some true ∧
      clusterGoneState.iam = ⟨["cp-role"], ["c"]⟩ ∧
      clusterGoneState.templateRuns ⟨"ns", "cp"⟩ =
        some (.returned (clusterGoneState.store.get ⟨.awsMachineTemplate, "ns", "cp"⟩) (⟨false⟩, some .other)) :=
  ⟨Reachable.run _ (.init _) fun _ _ _ => trivial, by decide, by decide, by decide, by decide, by decide⟩

end Sys

end CapaIam

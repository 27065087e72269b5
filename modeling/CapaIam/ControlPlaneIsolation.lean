import CapaIam.NonInterference
import CapaIam.ControlPlaneProgress
import CapaIam.Isolation
/-!
# A control-plane reconcile depends only on its own calls

`AWSManagedControlPlaneReconciler.Reconcile` reads and patches only the object of its request; its
other calls go to AWS and IAM, and it reads their answers only as success or failure. The
template reconciles patch only templates, `AWSCluster`s and `ConfigMap`s, and the other
control-plane reconciles only their own objects. So over any interleaving with them, any of their
calls failing, and with environment writes to other names, the control-plane reconcile of `req`
stands where its own calls alone would leave it, and so does its object
(`control_plane_reconcile_sees_only_its_object`). In particular, if its own calls go through, it
finishes as it does alone (`concurrent_control_plane_reconcile_completes`).

The proof relates the interleaved system to the run of the reconcile's own actions:
`ControlPlaneView` says that both hold the same run and the same object of its name. A call of the
reconcile answers alike in both and keeps them so (`World.exec_local`); every other action leaves
the run and the object as they were (`get_step_other`, `controlPlaneRuns_step_other`).
-/

namespace CapaIam

/-- The calls that touch the store only at the name `r`. -/
def Call.Local (r : ObjRef) : Call → Prop
  | .get y | .patch y _ _ => y = r
  | .getAWSClusterByName _ _ | .isRoleUsedElsewhere _ _ => False
  | _ => True

/-- The calls that neither read nor patch an `AWSManagedControlPlane`. -/
def Call.OffControlPlane : Call → Prop
  | .get y | .patch y _ _ => y.kind ≠ .awsManagedControlPlane
  | _ => True

def EnvAction.ref : EnvAction → ObjRef
  | .create o => o.ref
  | .setLabels r _ | .delete r | .addFinalizer r _ | .removeFinalizer r _ => r

namespace Store

variable {s s' : Store} {o : Obj} {y : ObjRef}

theorem get_create_of_ne (h : s.create o = some s') (hy : o.ref ≠ y) : s'.get y = s.get y :=
  Option.ext fun o' => by
    simp only [Option.mem_def, get_eq_some, mem_create h]
    exact and_congr_left fun hr => or_iff_right (by rintro rfl; exact hy hr)

theorem get_envApply_of_ne {e : EnvAction} (h : e.ref ≠ y) : (s.envApply e).get y = s.get y := by
  cases e with
  | create o =>
    simp only [envApply]
    cases hc : s.create o with
    | none => rfl
    | some s' => exact get_create_of_ne hc h
  | setLabels r l | delete r => exact get_update_of_ne (Ne.symm h)
  | addFinalizer r f | removeFinalizer r f =>
    simp only [envApply]
    split
    · split
      · rfl
      · exact get_update_of_ne (Ne.symm h)
    · rfl

end Store

namespace World

variable {r : ObjRef} {w w' : World} {x : Call}

theorem read_local (h : w'.store.get r = w.store.get r) (hx : x.Local r) : w'.read x = w.read x := by
  cases x with
  | get y =>
    obtain rfl : y = r := hx
    simp only [read, h]
  | getAWSClusterByName | isRoleUsedElsewhere => exact hx.elim
  | _ => rfl

theorem exec_local (h : w'.store.get r = w.store.get r) (hx : x.Local r) (ch : Choice) :
    (w'.exec x ch).2 = (w.exec x ch).2 ∧ (w'.exec x ch).1.store.get r = (w.exec x ch).1.store.get r :=
  exec_congr (fun st st' => st'.get r = st.get r) h
    (write_congr (fun st st' => st'.get r = st.get r) h fun y _ _ e => by
      subst e
      obtain rfl : y = r := hx
      exact ⟨h, fun _ => Store.get_update_congr h⟩)
    (read_local h hx) ch

end World

variable {st : Store} {req : NamespacedName} {y : ObjRef} {b m : List String}

theorem AWSMachineTemplateReconciler.Target.Holds.kind_ne {c : AWSMachineTemplateReconciler.Ctx}
    {tg : AWSMachineTemplateReconciler.Target} {obj : Obj} (hc : c.Ok st req) (h : tg.Holds c obj) :
    obj.ref.kind ≠ .awsManagedControlPlane := by
  cases tg with
  | awsMachineTemplate => rw [h.trans hc.ref]; exact fun e => nomatch e
  | awsCluster | configMap => exact fun e => nomatch h.symm.trans e

/-- A template reconcile reads and patches only templates, `AWSCluster`s and `ConfigMap`s. -/
theorem AWSMachineTemplateReconciler.Pc.Ok.call_off {p : AWSMachineTemplateReconciler.Pc} {x : Call}
    (h : p.Ok st req) (hc : p.call req.ns req.name = some x) : x.OffControlPlane := by
  cases p with
  | get | getConfigMap => cases hc; exact fun e => nomatch e
  | removeFinalizer c u tg obj i | refetch c u tg obj i => cases hc; exact h.2.2.1.kind_ne h.1
  | addFinalizer c => cases hc; rw [h.1.ref]; exact fun e => nomatch e
  | returned => cases hc
  | _ => cases hc; trivial

/-- The calls of the control-plane reconcile of `req` touch the store only at its object. -/
theorem AWSManagedControlPlaneReconciler.Pc.Ok.call_local {p : AWSManagedControlPlaneReconciler.Pc}
    {x : Call} (h : p.Ok st req) (hc : p.call req.ns req.name = some x) :
    x.Local (req.ref .awsManagedControlPlane) := by
  cases p with
  | get => cases hc; exact rfl
  | removeFinalizer c | addFinalizer c => cases hc; exact h.ref
  | returned => cases hc
  | _ => cases hc; trivial

namespace Sys

open AWSManagedControlPlaneReconciler

variable {cfg : AWSMachineTemplateReconciler} {s s' : Sys} {a : Action}

theorem step_store_write :
    (s.step cfg a).store = s.store ∨ (∃ e, a = .env e ∧ (s.step cfg a).store = s.store.envApply e) ∨
      ∃ z b m, s.callOf a = some (.patch z b m) ∧ (s.step cfg a).store = s.store.update z (.finalizers m) := by
  rcases step_world cfg s a with ⟨hs, -⟩ | ⟨e, rfl, hs, -⟩ | ⟨c, hc, hw⟩
  · exact .inl hs
  · exact .inr (.inl ⟨e, rfl, hs⟩)
  · cases c with
    | patch z b m =>
      have hp : s.store.patch z b m = .ok (s.step cfg a).store := (World.write_patch.1 hw).1
      rcases Store.patch_eq_ok hp with ⟨-, hs⟩ | ⟨-, -, -, hs⟩
      · exact .inl hs
      · exact .inr (.inr ⟨z, b, m, hc, hs⟩)
    | _ => exact .inl (World.write_store_of_not_patch (by intro _ _ _ h; cases h) hw)

theorem get_step_of_ne (hx : ∀ z b m, s.callOf a = some (.patch z b m) → z ≠ y)
    (he : ∀ e, a = .env e → e.ref ≠ y) : (s.step cfg a).store.get y = s.store.get y := by
  rcases @step_store_write cfg s a with hs | ⟨e, rfl, hs⟩ | ⟨z, b, m, hc, hs⟩ <;> rw [hs]
  · exact Store.get_envApply_of_ne (he e rfl)
  · exact Store.get_update_of_ne (hx z b m hc).symm

theorem get_step_other (hwf : s.Wf) (ha : a.ofControlPlane req = false)
    (he : ∀ e, a = .env e → e.ref ≠ req.ref .awsManagedControlPlane) :
    (s.step cfg a).store.get (req.ref .awsManagedControlPlane) =
      s.store.get (req.ref .awsManagedControlPlane) := by
  refine get_step_of_ne (fun z b m hc => ?_) he
  cases a with
  | template req' ch =>
    obtain ⟨pc, hpc, hc'⟩ := callOf_template hc
    have hk : z.kind ≠ .awsManagedControlPlane := (holds_of_run hpc (hwf.template req') trivial :
      AWSMachineTemplateReconciler.Pc.Ok s.store req' pc).call_off hc'
    exact fun e => hk (by rw [e]; rfl)
  | controlPlane req' ch =>
    obtain ⟨pc, hpc, hc'⟩ := callOf_controlPlane hc
    have hz : z = req'.ref .awsManagedControlPlane :=
      (holds_of_run hpc (hwf.controlPlane req') trivial : pc.Ok s.store req').call_local hc'
    have hne : req' ≠ req := by simpa [Action.ofControlPlane] using ha
    exact fun e => hne (NamespacedName.ref_inj (hz.symm.trans e))
  | env e => cases hc

theorem controlPlaneRuns_step_other (ha : a.ofControlPlane req = false) :
    (s.step cfg a).controlPlaneRuns req = s.controlPlaneRuns req := by
  cases a with
  | template req' ch => simp
  | controlPlane req' ch =>
    exact controlPlaneRuns_controlPlane_of_ne ch (Ne.symm (by simpa [Action.ofControlPlane] using ha))
  | env e => rfl

/-- `s'` holds the control-plane run of `req` that `s` holds, and the same object of its name. -/
structure ControlPlaneView (req : NamespacedName) (s s' : Sys) : Prop where
  get : s'.store.get (req.ref .awsManagedControlPlane) = s.store.get (req.ref .awsManagedControlPlane)
  run : s'.controlPlaneRuns req = s.controlPlaneRuns req

theorem ControlPlaneView.refl (req : NamespacedName) (s : Sys) : ControlPlaneView req s s :=
  ⟨rfl, rfl⟩

theorem ControlPlaneView.own (hwf : s.Wf) (h : ControlPlaneView req s s') (ch : Choice) :
    ControlPlaneView req (s.step cfg (.controlPlane req ch)) (s'.step cfg (.controlPlane req ch)) := by
  rcases step_controlPlane cfg s req ch with ⟨t, r, hrun, hs⟩ | ⟨pc, c, hpc, -, hc, hs⟩
  · rw [hs, step_controlPlane_of_returned (h.run.trans hrun)]
    exact ⟨h.get, by simp⟩
  · rw [hs, step_controlPlane_of_call (h.run ▸ hpc) hc]
    obtain ⟨hans, hget⟩ := @World.exec_local _ s.world s'.world _ h.get
      ((holds_of_run hpc (hwf.controlPlane req) trivial : pc.Ok s.store req).call_local hc) ch
    exact ⟨hget, by simp [hans]⟩

theorem ControlPlaneView.other (hwf : s.Wf) (h : ControlPlaneView req s s')
    (ha : a.ofControlPlane req = false) (he : ∀ e, a = .env e → e.ref ≠ req.ref .awsManagedControlPlane) :
    ControlPlaneView req (s.step cfg a) s' :=
  ⟨h.get.trans (get_step_other hwf ha he).symm, h.run.trans (controlPlaneRuns_step_other ha).symm⟩

/-- Over any schedule whose environment writes spare the object of `req`, the system keeps the view
of the control-plane reconcile of `req` that the run of its own actions alone has. -/
theorem controlPlaneView_run :
    ∀ (as : List Action) (s s' : Sys), s.Wf →
      (∀ e, Action.env e ∈ as → e.ref ≠ req.ref .awsManagedControlPlane) → ControlPlaneView req s s' →
      ControlPlaneView req (s.run cfg as) (s'.run cfg (as.filter (Action.ofControlPlane req)))
  | [], _, _, _, _, h => h
  | a :: as, s, s', hwf, he, h => by
    have he' := fun e hm => he e (List.mem_cons_of_mem a hm)
    cases ha : a.ofControlPlane req with
    | true =>
      obtain ⟨ch, rfl⟩ := Action.ofControlPlane_eq_true.1 ha
      rw [List.filter_cons_of_pos ha]
      exact controlPlaneView_run as _ _ (hwf.step cfg _) he' (h.own hwf ch)
    | false =>
      rw [List.filter_cons_of_neg (by simp [ha])]
      exact controlPlaneView_run as _ _ (hwf.step cfg _) he'
        (h.other hwf ha fun e hae => he e (List.mem_cons.2 (.inl hae.symm)))

/-- Take any reachable state and the control-plane reconcile of `req` anywhere in its run. Over
any interleaving with the template reconciles, the other control-plane reconciles and environment
writes to other names, any call of any of them failing, the reconcile of `req` stands exactly
where it stands on its own actions alone, and its object is as its own actions alone leave it. -/
theorem control_plane_reconcile_sees_only_its_object {adm : Sys → Action → Prop}
    (hs : Reachable cfg adm s) (req : NamespacedName) (as : List Action)
    (has : ∀ e, Action.env e ∈ as → e.ref ≠ req.ref .awsManagedControlPlane) :
    (s.run cfg as).controlPlaneRuns req =
        (s.run cfg (as.filter (Action.ofControlPlane req))).controlPlaneRuns req ∧
      (s.run cfg as).store.get (req.ref .awsManagedControlPlane) =
        (s.run cfg (as.filter (Action.ofControlPlane req))).store.get (req.ref .awsManagedControlPlane) := by
  have h := @controlPlaneView_run req cfg as s s hs.wf has (.refl req s)
  exact ⟨h.run.symm, h.get.symm⟩

/-- An EKS control plane among the templates of a rollover halfway. -/
def rolloverControlPlane : Obj := { eksControlPlane with uid := 3 }

def rolloverWithControlPlane : Store where
  objects := [rolloverClaimedCluster, rolloverRetiring, rolloverNewLive, rolloverControlPlane]
  nextUid := 4
  nodup := by decide
  uid_nodup := by decide
  uid_lt := by decide

/-- The control-plane reconcile among the deletion of the old template, the reconcile of the new
one, the reconcile of another control plane and the environment deleting the new template. -/
def rolloverWithEks : List Action :=
  [.template ⟨"ns", "cp-old"⟩ .ok, .controlPlane ⟨"ns", "eks"⟩ .ok, .env (.delete rolloverNewLive.ref),
    .template ⟨"ns", "cp-new"⟩ (.fail true), .controlPlane ⟨"ns", "eks"⟩ (.fail true),
    .controlPlane ⟨"ns", "other"⟩ .ok, .controlPlane ⟨"ns", "eks"⟩ .ok]

theorem rollover_eks_sees_only_itself :
    ((init rolloverWithControlPlane).run ⟨true⟩ rolloverWithEks).controlPlaneRuns ⟨"ns", "eks"⟩ =
        ((init rolloverWithControlPlane).run ⟨true⟩
          (rolloverWithEks.filter (Action.ofControlPlane ⟨"ns", "eks"⟩))).controlPlaneRuns ⟨"ns", "eks"⟩ ∧
      ((init rolloverWithControlPlane).run ⟨true⟩ rolloverWithEks).store.get
          (NamespacedName.ref ⟨"ns", "eks"⟩ .awsManagedControlPlane) =
        ((init rolloverWithControlPlane).run ⟨true⟩
          (rolloverWithEks.filter (Action.ofControlPlane ⟨"ns", "eks"⟩))).store.get
          (NamespacedName.ref ⟨"ns", "eks"⟩ .awsManagedControlPlane) :=
  control_plane_reconcile_sees_only_its_object
    (show Reachable ⟨true⟩ (fun _ _ => True) (init rolloverWithControlPlane) from .init _) _ _
    fun e he => by
      simp only [rolloverWithEks, List.mem_cons, Action.env.injEq, reduceCtorEq, false_or, or_false,
        List.mem_nil_iff] at he
      subst he
      decide

/-- Take any reachable state with the control-plane reconcile of `req` idle and its object `a`
stored with the watch label, the cluster label `C` and the role name `rn`. Over any interleaving
with the template reconciles, the other control-plane reconciles and environment writes to other
names, any of their calls failing, once the reconcile of `req` has made as many calls as it makes
alone, all going through, it has returned nil asking for a requeue, and its object is as the
reconcile alone leaves it: with `FinalizerName(IRSARole)` if `a` is live, without it if `a` is being
deleted. -/
theorem concurrent_control_plane_reconcile_completes {adm : Sys → Action → Prop} {a : Obj} {C rn : String}
    (hs : Reachable cfg adm s) (hrun : s.controlPlaneRuns req = none)
    (ha : s.store.get (req.ref .awsManagedControlPlane) = some a)
    (hcl : Key.getClusterIDFromLabels a.labels = some C) (hwatch : Key.hasCapiWatchLabel a.labels = true)
    (hrn : a.spec.roleName = some rn) (as : List Action)
    (has : ∀ e, Action.env e ∈ as → e.ref ≠ req.ref .awsManagedControlPlane)
    (hown : as.filter (Action.ofControlPlane req) = List.replicate
      (if a.deletionTimestamp then irsaDeleteCalls ⟨a, C, rn⟩ else irsaCalls ⟨a, C, rn⟩) (.controlPlane req .ok)) :
    (s.run cfg as).controlPlaneRuns req = some (.returned (some a) requeue) ∧
      (s.run cfg as).store.get (req.ref .awsManagedControlPlane) =
        (if a.deletionTimestamp then irsaDeleteWorld ⟨a, C, rn⟩ s.world
          else irsaWorld ⟨a, C, rn⟩ s.world).store.get (req.ref .awsManagedControlPlane) := by
  have halone : Pc.Alone req (if a.deletionTimestamp then irsaDeleteCalls ⟨a, C, rn⟩ else irsaCalls ⟨a, C, rn⟩)
      .get s.world (.returned (some a) requeue)
      (if a.deletionTimestamp then irsaDeleteWorld ⟨a, C, rn⟩ s.world else irsaWorld ⟨a, C, rn⟩ s.world) := by
    cases hd : a.deletionTimestamp
    · exact alone_normal ha hcl hwatch hrn hd
    · exact alone_delete ha hcl hwatch hrn hd
  have h := @controlPlaneView_run req cfg as s s hs.wf has (.refl req s)
  rw [hown] at h
  obtain ⟨hq, hw⟩ := @controlPlaneAlone_returned cfg s req _ .get _ _ _ halone (.inr ⟨hrun, rfl⟩)
  exact ⟨h.run.symm.trans hq, h.get.symm.trans (congrArg (fun w : World => w.store.get _) hw)⟩

/-- The control-plane reconcile's ten calls, all going through, among the deletion of the old
template, the failing reconcile of the new one and the environment deleting the new template. -/
def rolloverEksCalls : List Action :=
  (List.replicate 10 [.controlPlane ⟨"ns", "eks"⟩ .ok, .template ⟨"ns", "cp-old"⟩ .ok,
    .template ⟨"ns", "cp-new"⟩ (.fail true)]).flatten ++ [.env (.delete rolloverNewLive.ref)]

theorem rollover_eks_completes :
    ((init rolloverWithControlPlane).run ⟨true⟩ rolloverEksCalls).controlPlaneRuns ⟨"ns", "eks"⟩ =
        some (.returned (some rolloverControlPlane) requeue) ∧
      ((init rolloverWithControlPlane).run ⟨true⟩ rolloverEksCalls).store.get
          (NamespacedName.ref ⟨"ns", "eks"⟩ .awsManagedControlPlane) =
        (irsaWorld ⟨rolloverControlPlane, "c", "role"⟩ (init rolloverWithControlPlane).world).store.get
          (NamespacedName.ref ⟨"ns", "eks"⟩ .awsManagedControlPlane) :=
  concurrent_control_plane_reconcile_completes
    (show Reachable ⟨true⟩ (fun _ _ => True) (init rolloverWithControlPlane) from .init _)
    rfl (by decide) (by decide) (by decide) (show rolloverControlPlane.spec.roleName = some "role" from rfl) _
    (fun e he => by
      simp [rolloverEksCalls] at he
      subst he
      decide)
    (by decide)

end Sys

end CapaIam

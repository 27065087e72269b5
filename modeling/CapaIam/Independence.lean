import CapaIam.ControlPlaneIsolation
import Mathlib.Data.List.Basic
/-!
# The two reconcilers are independent

The dual of `ControlPlaneIsolation.lean`. A template reconcile reads and patches templates,
`AWSCluster`s and `ConfigMap`s, and asks `isRoleUsedElsewhere` about templates: it never looks at
an `AWSManagedControlPlane`. The control-plane reconciles patch only `AWSManagedControlPlane`s,
and write IAM, which a template reconcile reads only as success or failure. So over any
interleaving of the template reconcile of `req` with control-plane reconciles and with
environment writes to `AWSManagedControlPlane`s, the template reconcile stands where its own calls
alone leave it, and every object other than an `AWSManagedControlPlane` is as its own calls alone
leave it (`template_reconcile_ignores_control_planes`).

With `ControlPlaneIsolation.lean` this makes the two reconcilers serializable on the store: any
interleaving of template and control-plane reconciles leaves every run and every object as the
same steps do with all template steps first (`reconcilers_serializable`). IAM is not part of it:
the deletion of a control-plane template and a control-plane reconcile may both write the IRSA
roles of one cluster, and a creation and a deletion do not commute.

`TemplateView` relates the interleaved system to the run of the template reconciles' own actions:
the same runs, and the same store once the `AWSManagedControlPlane`s are dropped
(`Store.withoutControlPlanes`).
-/

namespace CapaIam

def Obj.offControlPlane (o : Obj) : Bool := o.ref.kind != .awsManagedControlPlane

namespace Store

/-- The store without its `AWSManagedControlPlane`s: all a template reconcile can read. -/
def withoutControlPlanes (st : Store) : List Obj := st.objects.filter Obj.offControlPlane

variable {st st' : Store} {y : ObjRef} {e : Edit} {P : Obj → Bool}

@[simp] theorem offControlPlane_apply (o : Obj) : (e.apply o).offControlPlane = o.offControlPlane := by
  simp only [Obj.offControlPlane, Edit.ref_apply]

theorem offControlPlane_of_ref (o : Obj) (ho : (o.ref == y) = true) (hy : y.kind ≠ .awsManagedControlPlane) :
    o.offControlPlane = true := by
  simp [Obj.offControlPlane, beq_iff_eq.1 ho, hy]

section Reads

-- every object that passes `P` is not an `AWSManagedControlPlane`
variable (hP : ∀ o, P o = true → o.offControlPlane = true)
include hP

theorem filter_withoutControlPlanes : st.withoutControlPlanes.filter P = st.objects.filter P := by
  rw [withoutControlPlanes, List.filter_filter]
  exact List.filter_congr fun o _ => by cases h : P o <;> simp [hP o, h]

theorem any_withoutControlPlanes : st.withoutControlPlanes.any P = st.objects.any P := by
  rw [withoutControlPlanes, List.any_filter]
  congr 1
  funext o
  cases h : P o <;> simp [hP o, h]

theorem find?_withoutControlPlanes : st.withoutControlPlanes.find? P = st.objects.find? P := by
  rw [withoutControlPlanes, List.find?_filter]
  congr 1
  funext o
  cases h : P o <;> simp [hP o, h]

end Reads

theorem get_of_withoutControlPlanes (h : st'.withoutControlPlanes = st.withoutControlPlanes)
    (hy : y.kind ≠ .awsManagedControlPlane) : st'.get y = st.get y := by
  have hP : ∀ o : Obj, (o.ref == y) = true → o.offControlPlane = true := fun o ho =>
    offControlPlane_of_ref o ho hy
  simp only [get, ← find?_withoutControlPlanes hP, h]

theorem getAWSClusterByName_of_withoutControlPlanes (h : st'.withoutControlPlanes = st.withoutControlPlanes)
    (C ns : String) : st'.getAWSClusterByName C ns = st.getAWSClusterByName C ns := by
  have hP : ∀ o : Obj, (o.spec == .awsCluster && o.ns == ns && o.labels.clusterName == some C) = true →
      o.offControlPlane = true := fun o ho => by
    simp only [Bool.and_eq_true, beq_iff_eq] at ho
    simp [Obj.offControlPlane, Obj.ref, ho.1.1, Spec.kind]
  simp only [getAWSClusterByName, ← filter_withoutControlPlanes hP, h]

theorem isRoleUsedElsewhere_of_withoutControlPlanes (h : st'.withoutControlPlanes = st.withoutControlPlanes)
    (u : Nat) (R : String) : st'.isRoleUsedElsewhere u R = st.isRoleUsedElsewhere u R := by
  have hP : ∀ o : Obj, (o.uid != u && o.spec == .awsMachineTemplate R) = true → o.offControlPlane = true :=
    fun o ho => by
      simp only [Bool.and_eq_true, beq_iff_eq] at ho
      simp [Obj.offControlPlane, Obj.ref, ho.2, Spec.kind]
  simp only [isRoleUsedElsewhere, ← any_withoutControlPlanes hP, h]

theorem withoutControlPlanes_update :
    (st.update y e).withoutControlPlanes = updateObjects st.withoutControlPlanes y e := by
  simp only [withoutControlPlanes, update, updateObjects]
  rw [List.filter_comm, List.filter_map _ st.objects]
  congr 2
  exact List.filter_congr fun o _ => by by_cases ho : o.ref = y <;> simp [ho]

theorem withoutControlPlanes_update_of_kind (hy : y.kind = .awsManagedControlPlane) :
    (st.update y e).withoutControlPlanes = st.withoutControlPlanes :=
  filter_filter_map fun o _ => by
    by_cases ho : o.ref = y
    · simp [ho, Obj.offControlPlane, hy]
    · simp [ho]

theorem withoutControlPlanes_envApply {a : EnvAction} (h : a.ref.kind = .awsManagedControlPlane) :
    (st.envApply a).withoutControlPlanes = st.withoutControlPlanes := by
  cases a with
  | create o =>
    simp only [envApply]
    cases hc : st.create o with
    | none => rfl
    | some s' =>
      unfold create at hc
      split at hc
      · cases hc
        simp [withoutControlPlanes, List.filter_cons, Obj.offControlPlane, Obj.ref]
        exact h
      · cases hc
  | setLabels r l | delete r => exact withoutControlPlanes_update_of_kind h
  | addFinalizer r f | removeFinalizer r f =>
    simp only [envApply]
    split
    · split
      · rfl
      · exact withoutControlPlanes_update_of_kind h
    · rfl

end Store

namespace World

variable {w w' : World} {x : Call}

theorem read_off (h : w'.store.withoutControlPlanes = w.store.withoutControlPlanes) (hx : x.OffControlPlane) :
    w'.read x = w.read x := by
  cases x with
  | get y => simp only [read, Store.get_of_withoutControlPlanes h hx]
  | getAWSClusterByName C ns => simp only [read, Store.getAWSClusterByName_of_withoutControlPlanes h]
  | isRoleUsedElsewhere u R => simp only [read, Store.isRoleUsedElsewhere_of_withoutControlPlanes h]
  | _ => rfl

theorem exec_off (h : w'.store.withoutControlPlanes = w.store.withoutControlPlanes)
    (hx : x.OffControlPlane) (ch : Choice) :
    (w'.exec x ch).2 = (w.exec x ch).2 ∧
      (w'.exec x ch).1.store.withoutControlPlanes = (w.exec x ch).1.store.withoutControlPlanes :=
  exec_congr (fun st st' => st'.withoutControlPlanes = st.withoutControlPlanes) h
    (write_congr (fun st st' => st'.withoutControlPlanes = st.withoutControlPlanes) h fun y _ _ e => by
      subst e
      exact ⟨Store.get_of_withoutControlPlanes h hx, fun _ => by
        dsimp only
        rw [Store.withoutControlPlanes_update, Store.withoutControlPlanes_update, h]⟩)
    (read_off h hx) ch

end World

def Action.isTemplate : Action → Bool
  | .template _ _ => true
  | _ => false

def Action.isControlPlane : Action → Bool
  | .controlPlane _ _ => true
  | _ => false

theorem Action.isControlPlane_eq_true {a : Action} :
    a.isControlPlane = true ↔ ∃ r ch, a = .controlPlane r ch := by
  cases a <;> simp [Action.isControlPlane]

theorem Action.isControlPlane_eq_false {a : Action} (h : a.isTemplate = true) : a.isControlPlane = false := by
  cases a <;> first | rfl | cases h

theorem Action.isTemplate_eq_false {a : Action} (h : a.isControlPlane = true) : a.isTemplate = false := by
  cases a <;> first | rfl | cases h

namespace Sys

open AWSMachineTemplateReconciler

variable {cfg : AWSMachineTemplateReconciler} {s s' : Sys} {req : NamespacedName} {a : Action}

/-- The actions of the control-plane side: a step of any control-plane reconcile, or an
environment write to an `AWSManagedControlPlane`. -/
def ControlPlaneSide (a : Action) : Prop :=
  (∃ r ch, a = .controlPlane r ch) ∨ ∃ e, a = .env e ∧ e.ref.kind = .awsManagedControlPlane

theorem withoutControlPlanes_step (hwf : s.Wf) (ha : ControlPlaneSide a) :
    (s.step cfg a).store.withoutControlPlanes = s.store.withoutControlPlanes := by
  rcases @step_store_write cfg s a with hs | ⟨e, rfl, hs⟩ | ⟨z, b, m, hc, hs⟩ <;> rw [hs]
  · obtain ⟨r, ch, h⟩ | ⟨e', he, hk⟩ := ha
    · cases h
    · cases he
      exact Store.withoutControlPlanes_envApply hk
  · obtain ⟨r, ch, rfl⟩ | ⟨e, rfl, -⟩ := ha
    · obtain ⟨pc, hpc, hc'⟩ := callOf_controlPlane hc
      have hz : z = r.ref .awsManagedControlPlane :=
        (holds_of_run hpc (hwf.controlPlane r) trivial :
          AWSManagedControlPlaneReconciler.Pc.Ok s.store r pc).call_local hc'
      exact Store.withoutControlPlanes_update_of_kind (by rw [hz]; rfl)
    · cases hc

/-- `s'` holds the runs of the template reconciles that `s` holds, and the same store but for the
`AWSManagedControlPlane`s. -/
structure TemplateView (s s' : Sys) : Prop where
  store : s'.store.withoutControlPlanes = s.store.withoutControlPlanes
  runs : s'.templateRuns = s.templateRuns

theorem TemplateView.refl (s : Sys) : TemplateView s s := ⟨rfl, rfl⟩

theorem TemplateView.own (hwf : s.Wf) (h : TemplateView s s') (req : NamespacedName) (ch : Choice) :
    TemplateView (s.step cfg (.template req ch)) (s'.step cfg (.template req ch)) := by
  rcases step_template cfg s req ch with ⟨t, r, hrun, hs⟩ | ⟨pc, c, hpc, -, hc, hs⟩
  · rw [hs, step_template_of_returned (show s'.templateRuns req = _ from h.runs ▸ hrun)]
    exact ⟨h.store, by rw [h.runs]⟩
  · have hpc' : s'.templateRuns req = some pc ∨ s'.templateRuns req = none ∧ pc = .get := h.runs ▸ hpc
    rw [hs, step_template_of_call hpc' hc]
    obtain ⟨hans, hst⟩ := @World.exec_off s.world s'.world _ h.store
      ((holds_of_run hpc (hwf.template req) trivial : pc.Ok s.store req).call_off hc) ch
    exact ⟨hst, by rw [h.runs, hans]⟩

theorem TemplateView.other (hwf : s.Wf) (h : TemplateView s s') (ha : ControlPlaneSide a) :
    TemplateView (s.step cfg a) s' := by
  refine ⟨h.store.trans (withoutControlPlanes_step hwf ha).symm, h.runs.trans ?_⟩
  obtain ⟨r, ch, rfl⟩ | ⟨e, rfl, -⟩ := ha
  · exact (templateRuns_controlPlane r ch).symm
  · rfl

/-- Over any interleaving of template reconciles with the control-plane side, the system keeps the
view of the template reconciles that the run of their own actions alone has. -/
theorem templateView_run :
    ∀ (as : List Action) (s s' : Sys), s.Wf → (∀ a ∈ as, a.isTemplate = true ∨ ControlPlaneSide a) →
      TemplateView s s' → TemplateView (s.run cfg as) (s'.run cfg (as.filter Action.isTemplate))
  | [], _, _, _, _, h => h
  | a :: as, s, s', hwf, has, h => by
    have has' := fun b hb => has b (List.mem_cons_of_mem a hb)
    rcases has a (List.mem_cons_self a as) with ha | ha
    · cases a with
      | template req ch =>
        rw [List.filter_cons_of_pos ha]
        exact templateView_run as _ _ (hwf.step cfg _) has' (h.own hwf req ch)
      | _ => cases ha
    · rw [List.filter_cons_of_neg (by rcases ha with ⟨r, ch, rfl⟩ | ⟨e, rfl, -⟩ <;> simp [Action.isTemplate])]
      exact templateView_run as _ _ (hwf.step cfg _) has' (h.other hwf ha)

/-- Take any reachable state and the template reconcile of `req` anywhere in its run, on the
normal or the deletion path. Over any interleaving with any control-plane reconciles and with
environment writes to `AWSManagedControlPlane`s, any call of any of them failing, the reconcile of
`req` stands exactly where it stands on its own actions alone, and every object other than an
`AWSManagedControlPlane` is as its own actions alone leave it. -/
theorem template_reconcile_ignores_control_planes {adm : Sys → Action → Prop}
    (hs : Reachable cfg adm s) (req : NamespacedName) (as : List Action)
    (has : ∀ a ∈ as, (∃ ch, a = .template req ch) ∨ ControlPlaneSide a) :
    (s.run cfg as).templateRuns req = (s.run cfg (as.filter (Action.ofTemplate req))).templateRuns req ∧
      ∀ y : ObjRef, y.kind ≠ .awsManagedControlPlane →
        (s.run cfg as).store.get y = (s.run cfg (as.filter (Action.ofTemplate req))).store.get y := by
  have hf : as.filter Action.isTemplate = as.filter (Action.ofTemplate req) :=
    List.filter_congr fun a ha => by
      rcases has a ha with ⟨ch, rfl⟩ | ⟨r, ch, rfl⟩ | ⟨e, rfl, -⟩ <;>
        simp [Action.isTemplate, Action.ofTemplate]
  have h := @templateView_run cfg as s s hs.wf
    (fun a ha => (has a ha).imp (fun ⟨ch, e⟩ => by rw [e]; rfl) id) (.refl s)
  rw [hf] at h
  exact ⟨congrFun h.runs.symm req, fun y hy => (Store.get_of_withoutControlPlanes h.store hy).symm⟩

/-- The deletion of the old control-plane template, one call at a time, among the EKS control
plane's reconcile and another writer adding, then removing, its own finalizer on the control plane. -/
def rolloverAmongEks : List Action :=
  [.template ⟨"ns", "cp-old"⟩ .ok, .controlPlane ⟨"ns", "eks"⟩ .ok,
    .env (.addFinalizer rolloverControlPlane.ref "other"), .template ⟨"ns", "cp-old"⟩ .ok,
    .controlPlane ⟨"ns", "eks"⟩ (.fail true), .template ⟨"ns", "cp-old"⟩ (.fail false),
    .env (.removeFinalizer rolloverControlPlane.ref "other"), .template ⟨"ns", "cp-old"⟩ .ok]

theorem rollover_template_ignores_eks :
    ((init rolloverWithControlPlane).run ⟨true⟩ rolloverAmongEks).templateRuns ⟨"ns", "cp-old"⟩ =
        ((init rolloverWithControlPlane).run ⟨true⟩
          (rolloverAmongEks.filter (Action.ofTemplate ⟨"ns", "cp-old"⟩))).templateRuns ⟨"ns", "cp-old"⟩ ∧
      ∀ y : ObjRef, y.kind ≠ .awsManagedControlPlane →
        ((init rolloverWithControlPlane).run ⟨true⟩ rolloverAmongEks).store.get y =
          ((init rolloverWithControlPlane).run ⟨true⟩
            (rolloverAmongEks.filter (Action.ofTemplate ⟨"ns", "cp-old"⟩))).store.get y :=
  template_reconcile_ignores_control_planes
    (show Reachable ⟨true⟩ (fun _ _ => True) (init rolloverWithControlPlane) from .init _) _ _
    fun a ha => by
      simp only [rolloverAmongEks, List.mem_cons, List.not_mem_nil, or_false] at ha
      rcases ha with rfl | rfl | rfl | rfl | rfl | rfl | rfl | rfl
      all_goals first
        | exact .inl ⟨_, rfl⟩
        | exact .inr (.inl ⟨_, _, rfl⟩)
        | exact .inr (.inr ⟨_, rfl, rfl⟩)

/-- The schedule with the template reconciles' steps first, in their order, then the control-plane
reconciles' steps, in theirs. -/
def templatesFirst (as : List Action) : List Action :=
  as.filter Action.isTemplate ++ as.filter Action.isControlPlane

section TemplatesFirst

variable {as : List Action} {p : Action → Bool}

theorem filter_templatesFirst_of_template (hp : ∀ a, p a = true → a.isTemplate = true) :
    (templatesFirst as).filter p = as.filter p := by
  have hT : (as.filter Action.isTemplate).filter p = as.filter p := by
    rw [List.filter_filter]
    exact List.filter_congr fun a _ => by cases h : p a <;> simp [h, hp a]
  have hC : (as.filter Action.isControlPlane).filter p = [] := by
    refine List.filter_eq_nil_iff.2 fun a ha hpa => absurd (List.mem_filter.1 ha).2 ?_
    simp [Action.isControlPlane_eq_false (hp a hpa)]
  rw [templatesFirst, List.filter_append, hT, hC, List.append_nil]

theorem filter_templatesFirst_of_controlPlane (hp : ∀ a, p a = true → a.isControlPlane = true) :
    (templatesFirst as).filter p = as.filter p := by
  have hT : (as.filter Action.isTemplate).filter p = [] := by
    refine List.filter_eq_nil_iff.2 fun a ha hpa => absurd (List.mem_filter.1 ha).2 ?_
    simp [Action.isTemplate_eq_false (hp a hpa)]
  have hC : (as.filter Action.isControlPlane).filter p = as.filter p := by
    rw [List.filter_filter]
    exact List.filter_congr fun a _ => by cases h : p a <;> simp [h, hp a]
  rw [templatesFirst, List.filter_append, hT, hC, List.nil_append]

end TemplatesFirst

/-- Two runs of reconcile steps that give the template reconciles the same steps in the same order,
and each control-plane reconcile the same steps in the same order, keep the same views: both look
like the template steps alone, and for each request like its control-plane steps alone. -/
theorem views_of_projections (hwf : s.Wf) {as bs : List Action}
    (has : ∀ a ∈ as, a.isTemplate = true ∨ a.isControlPlane = true)
    (hbs : ∀ a ∈ bs, a.isTemplate = true ∨ a.isControlPlane = true)
    (hT : as.filter Action.isTemplate = bs.filter Action.isTemplate)
    (hC : ∀ req, as.filter (Action.ofControlPlane req) = bs.filter (Action.ofControlPlane req)) :
    TemplateView (s.run cfg as) (s.run cfg bs) ∧
      ∀ req, ControlPlaneView req (s.run cfg as) (s.run cfg bs) := by
  have hside : ∀ cs : List Action, (∀ a ∈ cs, a.isTemplate = true ∨ a.isControlPlane = true) →
      ∀ a ∈ cs, a.isTemplate = true ∨ ControlPlaneSide a := fun cs hcs a ha =>
    (hcs a ha).imp_right fun h => .inl (Action.isControlPlane_eq_true.1 h)
  have hnoenv : ∀ cs : List Action, (∀ a ∈ cs, a.isTemplate = true ∨ a.isControlPlane = true) →
      ∀ (e : EnvAction) (r : ObjRef), Action.env e ∈ cs → e.ref ≠ r := fun cs hcs e _ he =>
    absurd (hcs _ he) (by simp [Action.isTemplate, Action.isControlPlane])
  -- the template side: both runs look like the template steps alone
  have h₁ := @templateView_run cfg as s s hwf (hside as has) (.refl s)
  have h₂ := @templateView_run cfg bs s s hwf (hside bs hbs) (.refl s)
  rw [hT] at h₁
  refine ⟨⟨h₂.store.symm.trans h₁.store, h₂.runs.symm.trans h₁.runs⟩, fun req => ?_⟩
  -- the control-plane side: for each request, both runs look like its own steps alone
  have g₁ := @controlPlaneView_run req cfg as s s hwf (fun e => hnoenv as has e _) (.refl req s)
  have g₂ := @controlPlaneView_run req cfg bs s s hwf (fun e => hnoenv bs hbs e _) (.refl req s)
  rw [hC req] at g₁
  exact ⟨g₂.get.symm.trans g₁.get, g₂.run.symm.trans g₁.run⟩

theorem get_of_views (hT : TemplateView s s') (hC : ∀ req, ControlPlaneView req s s') (y : ObjRef) :
    s'.store.get y = s.store.get y := by
  by_cases hy : y.kind = .awsManagedControlPlane
  · have hr : y = NamespacedName.ref ⟨y.ns, y.name⟩ .awsManagedControlPlane := by
      cases y
      simp_all [NamespacedName.ref]
    rw [hr]
    exact (hC _).get
  · exact Store.get_of_withoutControlPlanes hT.store hy

/-- Take any reachable state, the reconciles in flight anywhere in their runs, and any interleaving
of template and control-plane reconciles, any call failing. It leaves every run of both
reconcilers and every object in the store as the same steps do with all template steps first:
the template reconciles see the store only without the `AWSManagedControlPlane`s, which is all they
write, and each control-plane reconcile sees and writes only its own object. -/
theorem reconcilers_serializable {adm : Sys → Action → Prop} (hs : Reachable cfg adm s)
    (as : List Action) (has : ∀ a ∈ as, a.isTemplate = true ∨ a.isControlPlane = true) :
    (s.run cfg as).templateRuns = (s.run cfg (templatesFirst as)).templateRuns ∧
      (s.run cfg as).controlPlaneRuns = (s.run cfg (templatesFirst as)).controlPlaneRuns ∧
      ∀ y, (s.run cfg as).store.get y = (s.run cfg (templatesFirst as)).store.get y := by
  have hfirst : ∀ a ∈ templatesFirst as, a.isTemplate = true ∨ a.isControlPlane = true := by
    intro a ha
    rcases List.mem_append.1 ha with h | h <;> simp only [List.mem_filter] at h
    exacts [.inl h.2, .inr h.2]
  obtain ⟨hT, hC⟩ := @views_of_projections cfg s hs.wf as (templatesFirst as) has hfirst
    (filter_templatesFirst_of_template fun _ h => h).symm fun req =>
      (filter_templatesFirst_of_controlPlane fun a h => by
        obtain ⟨ch, rfl⟩ := Action.ofControlPlane_eq_true.1 h
        rfl).symm
  exact ⟨hT.runs.symm, funext fun req => (hC req).run.symm, fun y => (get_of_views hT hC y).symm⟩

/-- The deletion of the old control-plane template and the reconcile of the new one, interleaved
call by call with the EKS control plane's reconcile and another's. -/
def rolloverBesideEks : List Action :=
  [.template ⟨"ns", "cp-old"⟩ .ok, .controlPlane ⟨"ns", "eks"⟩ .ok, .template ⟨"ns", "cp-new"⟩ .ok,
    .controlPlane ⟨"ns", "eks"⟩ (.fail true), .template ⟨"ns", "cp-old"⟩ .ok,
    .controlPlane ⟨"ns", "other"⟩ .ok, .template ⟨"ns", "cp-new"⟩ (.fail false),
    .controlPlane ⟨"ns", "eks"⟩ .ok]

theorem rollover_beside_eks_serializable :
    ((init rolloverWithControlPlane).run ⟨true⟩ rolloverBesideEks).templateRuns =
        ((init rolloverWithControlPlane).run ⟨true⟩ (templatesFirst rolloverBesideEks)).templateRuns ∧
      ((init rolloverWithControlPlane).run ⟨true⟩ rolloverBesideEks).controlPlaneRuns =
        ((init rolloverWithControlPlane).run ⟨true⟩ (templatesFirst rolloverBesideEks)).controlPlaneRuns ∧
      ∀ y, ((init rolloverWithControlPlane).run ⟨true⟩ rolloverBesideEks).store.get y =
        ((init rolloverWithControlPlane).run ⟨true⟩ (templatesFirst rolloverBesideEks)).store.get y :=
  reconcilers_serializable
    (show Reachable ⟨true⟩ (fun _ _ => True) (init rolloverWithControlPlane) from .init _) _ (by decide)

/-- Take any reachable state, the reconciles in flight anywhere in their runs, and two
interleavings of template and control-plane reconciles, any call failing. If they give the
template reconciles the same steps in the same order, and each control-plane reconcile the same
steps in the same order, they leave every run of both reconcilers and every object in the store
alike: control-plane reconciles of different requests commute with each other and with the
template reconciles. -/
theorem equivalent_schedules_agree {adm : Sys → Action → Prop} (hs : Reachable cfg adm s)
    (as bs : List Action) (has : ∀ a ∈ as, a.isTemplate = true ∨ a.isControlPlane = true)
    (hbs : ∀ a ∈ bs, a.isTemplate = true ∨ a.isControlPlane = true)
    (hT : as.filter Action.isTemplate = bs.filter Action.isTemplate)
    (hC : ∀ req, as.filter (Action.ofControlPlane req) = bs.filter (Action.ofControlPlane req)) :
    (s.run cfg as).templateRuns = (s.run cfg bs).templateRuns ∧
      (s.run cfg as).controlPlaneRuns = (s.run cfg bs).controlPlaneRuns ∧
      ∀ y, (s.run cfg as).store.get y = (s.run cfg bs).store.get y := by
  obtain ⟨hT', hC'⟩ := @views_of_projections cfg s hs.wf as bs has hbs hT hC
  exact ⟨hT'.runs.symm, funext fun req => (hC' req).run.symm, fun y => (get_of_views hT' hC' y).symm⟩

/-- The steps of `rolloverBesideEks`, the control-plane reconciles' steps moved ahead of the
templates' and the second control plane's step ahead of the EKS control plane's. -/
def rolloverControlPlanesAhead : List Action :=
  [.controlPlane ⟨"ns", "other"⟩ .ok, .controlPlane ⟨"ns", "eks"⟩ .ok, .template ⟨"ns", "cp-old"⟩ .ok,
    .controlPlane ⟨"ns", "eks"⟩ (.fail true), .template ⟨"ns", "cp-new"⟩ .ok,
    .controlPlane ⟨"ns", "eks"⟩ .ok, .template ⟨"ns", "cp-old"⟩ .ok,
    .template ⟨"ns", "cp-new"⟩ (.fail false)]

theorem rollover_control_planes_ahead_agree :
    ((init rolloverWithControlPlane).run ⟨true⟩ rolloverBesideEks).templateRuns =
        ((init rolloverWithControlPlane).run ⟨true⟩ rolloverControlPlanesAhead).templateRuns ∧
      ((init rolloverWithControlPlane).run ⟨true⟩ rolloverBesideEks).controlPlaneRuns =
        ((init rolloverWithControlPlane).run ⟨true⟩ rolloverControlPlanesAhead).controlPlaneRuns ∧
      ∀ y, ((init rolloverWithControlPlane).run ⟨true⟩ rolloverBesideEks).store.get y =
        ((init rolloverWithControlPlane).run ⟨true⟩ rolloverControlPlanesAhead).store.get y :=
  equivalent_schedules_agree
    (show Reachable ⟨true⟩ (fun _ _ => True) (init rolloverWithControlPlane) from .init _) _ _
    (by decide) (by decide) (by decide) fun req => by
      by_cases he : req = ⟨"ns", "eks"⟩
      · subst he; decide
      by_cases ho : req = ⟨"ns", "other"⟩
      · subst ho; decide
      simp [rolloverBesideEks, rolloverControlPlanesAhead, List.filter_cons, Action.ofControlPlane,
        Ne.symm he, Ne.symm ho]

end Sys

end CapaIam

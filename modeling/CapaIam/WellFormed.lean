import CapaIam.Frame

/-!
# What a reconcile in flight knows

A reconcile reads its object once and then works from that copy while other reconciles and the
environment change the store. `Pc.Ok` states what stays true at each `Pc`: the labels `afterGet`
checked, that the stored object of the copy's uid is still the object the copy was read from
(`Store.Tracks`), which branch the reconcile is on, what `removeFinalizer` knows of the object it
patches, and, once a deletion run has removed the template's finalizer, that no object of the
template's uid carries it (`Store.Released`). `Sys.Wf` says that every reconcile in flight is
`Ok`; it holds in every reachable state, whatever the environment does (`Reachable.wf`).

The proof splits as for any interleaving: a step of anything keeps the facts of a `Pc`
(`Pc.Ok.step`: uids are never reused, and an object being deleted gains no finalizer), and the
reconcile's own call moves it to a `Pc` whose facts follow from the answer (`Pc.Ok.next`).
-/

namespace CapaIam

namespace Store

/-- The stored object of uid `t.uid`, if any, is the object `t` was read from: same name and
spec, and being deleted once `t` was. -/
structure Tracks (st : Store) (t : Obj) : Prop where
  uid_lt : t.uid < st.nextUid
  same : ∀ o ∈ st.objects, o.uid = t.uid →
    o.ref = t.ref ∧ o.spec = t.spec ∧ (t.deletionTimestamp = true → o.deletionTimestamp = true)

/-- No stored object of uid `t.uid` carries `FinalizerName(ControlPlaneRole)`. -/
def Released (st : Store) (t : Obj) : Prop :=
  ∀ o ∈ st.objects, o.uid = t.uid → controlPlaneFinalizer ∉ o.finalizers

theorem Tracks.of_get {st : Store} {r : ObjRef} {t : Obj} (h : st.get r = some t) : st.Tracks t :=
  ⟨st.uid_lt t (mem_of_get h), fun o ho hu => by
    obtain rfl := List.inj_on_of_nodup_map st.uid_nodup ho (mem_of_get h) hu
    exact ⟨rfl, rfl, id⟩⟩

theorem Tracks.with_finalizers {st : Store} {t : Obj} (h : st.Tracks t) (fs : List String) :
    st.Tracks { t with finalizers := fs } :=
  ⟨h.uid_lt, h.same⟩

theorem Tracks.released_of_get {st : Store} {t o : Obj} (hT : st.Tracks t) (h : st.get t.ref = some o)
    (hf : controlPlaneFinalizer ∉ o.finalizers) : st.Released t := fun o' ho' hu => by
  rw [Store.eq_of_mem_of_ref_eq ho' (mem_of_get h) ((hT.same o' ho' hu).1.trans (ref_of_get h).symm)]
  exact hf

end Store

namespace Sys

variable {cfg : AWSMachineTemplateReconciler} {s : Sys} {a : Action} {t : Obj}

theorem tracks_step (h : s.store.Tracks t) : (s.step cfg a).store.Tracks t :=
  ⟨lt_of_lt_of_le h.uid_lt (nextUid_le_step cfg s a), fun o' ho' hu => by
    obtain ⟨o, ho, hst⟩ := step_new_of_lt cfg s a ho' (hu ▸ h.uid_lt)
    obtain ⟨hr, hs, hd⟩ := h.same o ho (hst.uid ▸ hu)
    exact ⟨hst.ref.trans hr, hst.spec.trans hs, fun ht => hst.deletion (hd ht)⟩⟩

theorem released_step (hT : s.store.Tracks t) (hd : t.deletionTimestamp = true)
    (h : s.store.Released t) : (s.step cfg a).store.Released t := fun o' ho' hu hf => by
  obtain ⟨o, ho, hst⟩ := step_new_of_lt cfg s a ho' (hu ▸ hT.uid_lt)
  have hu' : o.uid = t.uid := hst.uid ▸ hu
  exact h o ho hu' (hst.shrinks ((hT.same o ho hu').2.2 hd) hf)

end Sys

/-! ### Template reconciles -/

namespace AWSMachineTemplateReconciler

/-- The facts `afterGet` checked about the template of a context, and that the store still
tracks it. -/
structure Ctx.Ok (st : Store) (req : NamespacedName) (c : Ctx) : Prop where
  ref : c.t.ref = req.ref .awsMachineTemplate
  role : roleOf c.t.labels = some c.role
  clusterName : Key.getClusterIDFromLabels c.t.labels = some c.clusterName
  tracks : st.Tracks c.t

/-- What `removeFinalizer` knows of the object it patches: an `AWSCluster`, the template's own
name, a `ConfigMap`. -/
def Target.Holds (c : Ctx) (obj : Obj) : Target → Prop
  | .awsCluster => obj.spec.kind = .awsCluster
  | .awsMachineTemplate => obj.ref = c.t.ref
  | .configMap => obj.spec.kind = .configMap

/-- The template is released once the copy being patched lacks the finalizer, and before the
`ConfigMap` is patched. -/
def Target.Done (st : Store) (c : Ctx) (obj : Obj) : Target → Prop
  | .awsCluster => True
  | .awsMachineTemplate => controlPlaneFinalizer ∉ obj.finalizers → st.Released c.t
  | .configMap => st.Released c.t

/-- What a template reconcile at `p` knows. A returned reconcile that read a template with a
deletion timestamp, the watch label, a role label, an `IAMInstanceProfile` and the finalizer, and
returned a nil error with no requeue, has released it. -/
def Pc.Ok (st : Store) (req : NamespacedName) : Pc → Prop
  | .get => True
  | .remote _ next => next.Ok st req
  | .getAWSCluster c => c.Ok st req
  | .isRoleUsedElsewhere c | .deleteRole c | .deleteRolesForIRSA c | .getAWSClusterToRelease c _ =>
    c.Ok st req ∧ c.t.deletionTimestamp = true
  | .removeFinalizer c _ tg obj i =>
    c.Ok st req ∧ c.t.deletionTimestamp = true ∧ tg.Holds c obj ∧ st.Tracks obj ∧ i ≤ maxPatchRetries ∧
      (controlPlaneFinalizer ∈ c.t.finalizers → tg.Done st c obj)
  | .refetch c _ tg obj i =>
    c.Ok st req ∧ c.t.deletionTimestamp = true ∧ tg.Holds c obj ∧ i < maxPatchRetries ∧
      (controlPlaneFinalizer ∈ c.t.finalizers → tg.Done st c obj)
  | .getConfigMap c _ =>
    c.Ok st req ∧ c.t.deletionTimestamp = true ∧
      (controlPlaneFinalizer ∈ c.t.finalizers → st.Released c.t)
  | .addFinalizer c | .getAWSClusterNormal c | .reconcileRole c | .reconcileRolesForIRSA c =>
    c.Ok st req ∧ c.t.deletionTimestamp = false
  | .returned t res => ∀ t', t = some t' → st.Tracks t' ∧
    (res = (⟨false⟩, none) → t'.deletionTimestamp = true → Key.hasCapiWatchLabel t'.labels = true →
      roleOf t'.labels ≠ none → t'.spec.iamInstanceProfile ≠ "" →
      controlPlaneFinalizer ∈ t'.finalizers → st.Released t')

variable {st : Store} {req : NamespacedName} {c : Ctx} {p : Pc} {t : Obj}
  {cfg : AWSMachineTemplateReconciler}

theorem Ctx.Ok.step {s : Sys} {cfg : AWSMachineTemplateReconciler} {a : Action} (h : c.Ok s.store req) :
    c.Ok (s.step cfg a).store req :=
  { h with tracks := Sys.tracks_step h.tracks }

theorem Target.Done.step {s : Sys} {cfg : AWSMachineTemplateReconciler} {a : Action} {obj : Obj}
    {tg : Target} (hT : s.store.Tracks c.t) (hd : c.t.deletionTimestamp = true)
    (h : tg.Done s.store c obj) : tg.Done (s.step cfg a).store c obj := by
  cases tg with
  | awsCluster => trivial
  | awsMachineTemplate => exact fun hf => Sys.released_step hT hd (h hf)
  | configMap => exact Sys.released_step hT hd h

/-- Every fact of a `Pc` survives any step. -/
theorem Pc.Ok.step {s : Sys} {cfg : AWSMachineTemplateReconciler} {a : Action}
    (h : p.Ok s.store req) : p.Ok (s.step cfg a).store req := by
  induction p with
  | get => trivial
  | remote _ _ ih => exact ih h
  | getAWSCluster => exact Ctx.Ok.step h
  | isRoleUsedElsewhere | deleteRole | deleteRolesForIRSA | getAWSClusterToRelease =>
    exact ⟨h.1.step, h.2⟩
  | removeFinalizer =>
    obtain ⟨hc, hd, hh, hT, hi, hdone⟩ := h
    exact ⟨hc.step, hd, hh, Sys.tracks_step hT, hi, fun hf => Target.Done.step hc.tracks hd (hdone hf)⟩
  | refetch =>
    obtain ⟨hc, hd, hh, hi, hdone⟩ := h
    exact ⟨hc.step, hd, hh, hi, fun hf => Target.Done.step hc.tracks hd (hdone hf)⟩
  | getConfigMap =>
    exact ⟨h.1.step, h.2.1, fun hf => Sys.released_step h.1.tracks h.2.1 (h.2.2 hf)⟩
  | addFinalizer | getAWSClusterNormal | reconcileRole | reconcileRolesForIRSA =>
    exact ⟨h.1.step, h.2⟩
  | returned t res =>
    intro t' ht
    obtain ⟨hT, hR⟩ := h t' ht
    exact ⟨Sys.tracks_step hT, fun h1 hd h3 h4 h5 h6 => Sys.released_step hT hd (hR h1 hd h3 h4 h5 h6)⟩

theorem Pc.Ok.read (h : p.Ok st req) {t : Obj} (ht : p.read = some t) : st.Tracks t := by
  induction p with
  | get => cases ht
  | remote _ _ ih => exact ih h ht
  | returned => exact (h t ht).1
  | getAWSCluster => cases ht; exact h.tracks
  | _ => cases ht; exact h.1.tracks

theorem Pc.Ok.fail (h : p.Ok st req) (e : ErrKind) : (p.fail e).Ok st req :=
  fun _ ht => ⟨h.read ht, fun h1 => by cases h1⟩

theorem returned_ok {res : Result × Option ErrKind} (hT : st.Tracks t)
    (h : res = (⟨false⟩, none) → t.deletionTimestamp = true → controlPlaneFinalizer ∈ t.finalizers →
      st.Released t) :
    (Pc.returned (some t) res).Ok st req := by
  rintro t' ⟨⟩
  exact ⟨hT, fun h1 hd _ _ _ hf => h h1 hd hf⟩

theorem afterGet_ok (h : st.get (req.ref .awsMachineTemplate) = some t) : (afterGet t).Ok st req := by
  have hT := Store.Tracks.of_get h
  unfold afterGet
  split
  · rintro t' ⟨⟩; exact ⟨hT, fun _ _ hw => by simp_all⟩
  · rename_i hw
    split
    · rintro t' ⟨⟩; exact ⟨hT, fun _ _ _ hr => absurd ‹roleOf t.labels = none› hr⟩
    · rename_i role hrole
      split
      · exact returned_ok hT fun h1 => by cases h1
      · rename_i cn hcn
        split
        · rintro t' ⟨⟩; exact ⟨hT, fun _ _ _ _ hp => absurd ‹_› hp⟩
        · exact ⟨Store.ref_of_get h, hrole, hcn, hT⟩

theorem session_ok (h : c.Ok st req) : (session c).Ok st req := by
  simp only [session, Pc.Ok]
  split
  · exact ⟨h, ‹_›⟩
  · rename_i hd
    rw [Bool.not_eq_true] at hd
    split <;> exact ⟨h, hd⟩

theorem afterRemove_ok {u : Bool} {tg : Target} (h : c.Ok st req) (hd : c.t.deletionTimestamp = true)
    (hdone : controlPlaneFinalizer ∈ c.t.finalizers → tg ≠ .awsCluster → st.Released c.t) :
    (afterRemove c u tg).Ok st req := by
  cases tg with
  | awsCluster =>
    simp only [afterRemove]
    split
    · exact ⟨h, hd, rfl, h.tracks, by decide, fun _ hf => absurd ‹_› hf⟩
    · rename_i hc
      exact ⟨h, hd, fun hf => absurd (Controllerutil.containsFinalizer_iff.2 hf) hc⟩
  | awsMachineTemplate => exact ⟨h, hd, fun hf => hdone hf nofun⟩
  | configMap => exact returned_ok h.tracks fun _ _ hf => hdone hf nofun

theorem startRemove_ok {u : Bool} {tg : Target} {obj : Obj} (h : c.Ok st req)
    (hd : c.t.deletionTimestamp = true) (hh : tg.Holds c obj) (hT : st.Tracks obj)
    (hdone : controlPlaneFinalizer ∈ c.t.finalizers → tg.Done st c obj)
    (hrel : controlPlaneFinalizer ∈ c.t.finalizers → tg ≠ .awsCluster → st.Released c.t) :
    (startRemove c u tg obj).Ok st req := by
  unfold startRemove
  split
  · exact ⟨h, hd, hh, hT, by decide, hdone⟩
  · exact afterRemove_ok h hd hrel

theorem afterReconcileRole_ok (h : c.Ok st req) (hd : c.t.deletionTimestamp = false) :
    (afterReconcileRole cfg c).Ok st req := by
  unfold afterReconcileRole
  split
  · exact ⟨h, hd⟩
  · exact returned_ok h.tracks fun _ hd' => by simp [hd] at hd'

/-- After a successful patch of the template that removes the finalizer from the copy, the
template is released: the patch wrote a list without it, or the copy already lacked it. -/
theorem released_of_patch {obj : Obj} (hT : st.Tracks c.t) (hh : obj.ref = c.t.ref)
    (hdone : controlPlaneFinalizer ∉ obj.finalizers → st.Released c.t)
    (ha : (Call.patch obj.ref obj.finalizers
      (Controllerutil.removeFinalizer obj.finalizers controlPlaneFinalizer)).Answered st .unit) :
    st.Released c.t := by
  by_cases hb : obj.finalizers = Controllerutil.removeFinalizer obj.finalizers controlPlaneFinalizer
  · refine hdone fun hf => ?_
    rw [hb] at hf
    simp at hf
  · intro o ho hu
    rw [(ha hb).1 o ho ((hT.same o ho hu).1.trans hh.symm)]
    simp

theorem Target.Holds.of_ref {tg : Target} {obj o : Obj} (h : tg.Holds c obj) (hr : o.ref = obj.ref) :
    tg.Holds c o := by
  cases tg with
  | awsMachineTemplate => exact hr.trans h
  | _ => exact (congrArg ObjRef.kind hr).trans h

/-- The reconcile's own call: from the facts at `p` in the store after the call, and what the
answer says about that store, the facts at the next `Pc`. -/
theorem Pc.Ok.next (h : p.Ok st req) {resp : Resp}
    (ha : ∀ c v, p.call req.ns req.name = some c → resp = .ok v → c.Answered st v) :
    (p.next cfg resp).Ok st req := by
  cases resp with
  | error e =>
    cases p with
    | get => cases e <;> exact fun _ h => nomatch h
    | removeFinalizer c u tg obj i =>
      cases e
      case invalid =>
        simp only [Pc.next]
        split
        · exact ⟨h.1, h.2.1, h.2.2.1, ‹_›, h.2.2.2.2.2⟩
        · exact returned_ok h.1.tracks fun h1 => by cases h1
      all_goals exact h.fail _
    | getConfigMap c u =>
      cases e
      case notFound => exact returned_ok h.1.tracks fun _ _ hf => h.2.2 hf
      all_goals exact h.fail _
    | _ => exact h.fail e
  | ok v =>
    cases p with
    | get =>
      obtain ⟨t, rfl, ht⟩ := ha _ v rfl rfl
      exact afterGet_ok ht
    | remote | deleteRolesForIRSA | addFinalizer | getAWSClusterNormal => exact h
    | getAWSCluster => exact session_ok h
    | isRoleUsedElsewhere c =>
      obtain rfl := ha _ v rfl rfl
      simp only [Pc.next]
      split <;> exact h
    | deleteRole c =>
      simp only [Pc.next]
      split <;> exact h
    | getAWSClusterToRelease c u =>
      obtain ⟨o, rfl, ho, hs⟩ := ha _ v rfl rfl
      exact startRemove_ok h.1 h.2 (by simp [Target.Holds, hs, Spec.kind])
        (Store.Tracks.of_get (Store.get_ref ho)) (fun _ => trivial) fun _ hne => absurd rfl hne
    | removeFinalizer c u tg obj i =>
      obtain ⟨hc, hd, hh, hT, hi, hdone⟩ := h
      have hpatch := ha _ v rfl rfl
      have hdone' : controlPlaneFinalizer ∈ c.t.finalizers →
          tg.Done st c { obj with
            finalizers := Controllerutil.removeFinalizer obj.finalizers controlPlaneFinalizer } ∧
          (tg ≠ .awsCluster → st.Released c.t) := by
        intro hf
        cases tg with
        | awsCluster => exact ⟨trivial, fun hne => absurd rfl hne⟩
        | awsMachineTemplate =>
          have := released_of_patch hc.tracks hh (hdone hf) hpatch
          exact ⟨fun _ => this, fun _ => this⟩
        | configMap => exact ⟨hdone hf, fun _ => hdone hf⟩
      simp only [Pc.next]
      split
      · exact ⟨hc, hd, hh.of_ref rfl, hT.with_finalizers _, Nat.succ_le_of_lt ‹_›, fun hf => (hdone' hf).1⟩
      · exact afterRemove_ok hc hd fun hf hne => (hdone' hf).2 hne
    | refetch c u tg obj i =>
      obtain ⟨hc, hd, hh, hi, hdone⟩ := h
      obtain ⟨o, rfl, ho⟩ := ha _ v rfl rfl
      refine ⟨hc, hd, hh.of_ref (Store.ref_of_get ho), Store.Tracks.of_get ho, Nat.succ_le_of_lt hi,
        fun hf => ?_⟩
      cases tg with
      | awsCluster => trivial
      | awsMachineTemplate => exact hc.tracks.released_of_get (hh ▸ ho)
      | configMap => exact hdone hf
    | getConfigMap c u =>
      obtain ⟨o, rfl, ho⟩ := ha _ v rfl rfl
      exact startRemove_ok h.1 h.2.1 (congrArg ObjRef.kind (Store.ref_of_get ho)) (Store.Tracks.of_get ho)
        h.2.2 fun hf _ => h.2.2 hf
    | reconcileRole => exact afterReconcileRole_ok h.1 h.2
    | reconcileRolesForIRSA => exact returned_ok h.1.tracks fun _ hd => by simp [h.2] at hd
    | returned => exact h.fail _

end AWSMachineTemplateReconciler

/-! ### Control-plane reconciles -/

namespace AWSManagedControlPlaneReconciler

/-- The facts `afterGet` checked about the object of a context, and that the store still tracks
it. -/
structure Ctx.Ok (st : Store) (req : NamespacedName) (c : Ctx) : Prop where
  ref : c.a.ref = req.ref .awsManagedControlPlane
  clusterName : Key.getClusterIDFromLabels c.a.labels = some c.clusterName
  tracks : st.Tracks c.a

/-- What a control-plane reconcile at `p` knows. It returns a nil error with no requeue only
for an object without the watch label. -/
def Pc.Ok (st : Store) (req : NamespacedName) : Pc → Prop
  | .get => True
  | .remote _ next => next.Ok st req
  | .deleteRolesForIRSA c | .removeFinalizer c | .addFinalizer c | .reconcileRolesForIRSA c =>
    c.Ok st req
  | .returned a res => ∀ a', a = some a' → st.Tracks a' ∧
    (res = (⟨false⟩, none) → Key.hasCapiWatchLabel a'.labels = false)

variable {st : Store} {req : NamespacedName} {c : Ctx} {p : Pc} {a : Obj}

theorem Pc.Ok.step {s : Sys} {cfg : AWSMachineTemplateReconciler} {act : Action}
    (h : p.Ok s.store req) : p.Ok (s.step cfg act).store req := by
  induction p with
  | get => trivial
  | remote _ _ ih => exact ih h
  | returned =>
    intro a' ha
    exact ⟨Sys.tracks_step (h a' ha).1, (h a' ha).2⟩
  | _ => exact { h with tracks := Sys.tracks_step h.tracks }

theorem Pc.Ok.fail (h : p.Ok st req) (e : ErrKind) : (p.fail e).Ok st req := by
  refine fun a' ha => ⟨?_, fun h1 => by cases h1⟩
  induction p with
  | get => cases ha
  | remote _ _ ih => exact ih h ha
  | returned => exact (h a' ha).1
  | _ => cases ha; exact h.tracks

theorem returned_ok {res : Result × Option ErrKind} (hT : st.Tracks a) (hres : res ≠ (⟨false⟩, none)) :
    (Pc.returned (some a) res).Ok st req := by
  rintro a' ⟨⟩
  exact ⟨hT, fun h1 => absurd h1 hres⟩

theorem afterGet_ok (h : st.get (req.ref .awsManagedControlPlane) = some a) :
    (afterGet a).Ok st req := by
  have hT := Store.Tracks.of_get h
  unfold afterGet
  split
  · exact returned_ok hT (by simp)
  · rename_i cn hcn
    split
    · rename_i hw
      rintro a' ⟨⟩
      exact ⟨hT, fun _ => by simpa using hw⟩
    · split
      · exact returned_ok hT (by simp [requeue])
      · rename_i rn _
        have hc : Ctx.Ok st req ⟨a, cn, rn⟩ := ⟨Store.ref_of_get h, hcn, hT⟩
        simp only [Pc.Ok]
        split
        · exact hc
        · split <;> exact hc

theorem Pc.Ok.next (h : p.Ok st req) {resp : Resp}
    (ha : ∀ c v, p.call req.ns req.name = some c → resp = .ok v → c.Answered st v) :
    (p.next resp).Ok st req := by
  cases resp with
  | error e =>
    cases p with
    | get => cases e <;> exact fun _ h => nomatch h
    | _ => exact h.fail e
  | ok v =>
    cases p with
    | get =>
      obtain ⟨a, rfl, hget⟩ := ha _ v rfl rfl
      exact afterGet_ok hget
    | remote => exact h
    | deleteRolesForIRSA c =>
      simp only [Pc.next]
      split
      · exact h
      · exact returned_ok h.tracks (by simp [requeue])
    | addFinalizer => exact h
    | returned => exact h.fail _
    | _ => exact returned_ok h.tracks (by simp [requeue])

end AWSManagedControlPlaneReconciler

/-! ### Every reachable state -/

namespace Sys

variable {cfg : AWSMachineTemplateReconciler} {s : Sys}

/-- Every reconcile in flight is `Ok`. -/
structure Wf (s : Sys) : Prop where
  template : ∀ req p, s.templateRuns req = some p → p.Ok s.store req
  controlPlane : ∀ req p, s.controlPlaneRuns req = some p → p.Ok s.store req

theorem Wf.init (st : Store) : (init st).Wf :=
  ⟨fun _ _ h => (nomatch h), fun _ _ h => (nomatch h)⟩

theorem Wf.step (h : s.Wf) (cfg : AWSMachineTemplateReconciler) (a : Action) : (s.step cfg a).Wf := by
  constructor
  · intro req p hp
    rcases templateRun_step cfg s a req with heq | hnone | ⟨ch, pc, c, rfl, hpc, hc, hrun, hst, -⟩
    · exact (h.template req p (heq.symm.trans hp)).step
    · rw [hnone] at hp; cases hp
    · rw [hrun, Option.some.injEq] at hp
      subst hp
      have hnew : pc.Ok (s.step cfg (.template req ch)).store req :=
        (holds_of_run hpc (h.template req) trivial : pc.Ok s.store req).step
      rw [hst] at hnew ⊢
      exact hnew.next (World.answered_of_call hc)
  · intro req p hp
    rcases controlPlaneRun_step cfg s a req with heq | hnone | ⟨ch, pc, c, rfl, hpc, hc, hrun, hst, -⟩
    · exact (h.controlPlane req p (heq.symm.trans hp)).step
    · rw [hnone] at hp; cases hp
    · rw [hrun, Option.some.injEq] at hp
      subst hp
      have hnew : pc.Ok (s.step cfg (.controlPlane req ch)).store req :=
        (holds_of_run hpc (h.controlPlane req) trivial : pc.Ok s.store req).step
      rw [hst] at hnew ⊢
      exact hnew.next (World.answered_of_call hc)

end Sys

/-- Every reachable state is well formed, whatever the environment does. -/
theorem Reachable.wf {cfg : AWSMachineTemplateReconciler} {adm : Sys → Action → Prop} {s : Sys}
    (h : Reachable cfg adm s) : s.Wf := by
  induction h with
  | init st => exact .init st
  | step a _ _ ih => exact ih.step cfg a

end CapaIam

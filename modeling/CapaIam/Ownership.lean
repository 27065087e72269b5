import CapaIam.WellFormed

/-!
# A reconcile owns its object while it runs

The claims of `NoLeak.lean` read a template's instance-profile name and labels off the object
that carries the finalizer, while a reconcile acts on the copy it read. The two agree only while
nothing else changes the object under that name: in runs where the environment edits labels
only on objects that carry no controller finalizer and whose reconcile is not in flight, and
creates no object under the name of an object whose reconcile is in flight (`Orderly`). In such
runs the name a reconcile read holds the object it read, with the labels it read
(`Store.Owns`), and once a normal run has seen or added its finalizer the object keeps it until
the role calls are made (`Pc.Held`, `Reachable.owned`).

Only a reconcile's own patch drops its finalizer from its object (`step_keeps_or_drops`,
`Pc.Ok.patch_target`), and `Pc.deleted` tells how far a deletion run whose guard answered
`false` has got: only a successful `DeleteRole` or `DeleteRolesForIRSA` moves it on
(`Pc.deleted_next`).
-/

namespace CapaIam

namespace Sys

/-- A reconcile of the object named `r` is in flight. -/
def Busy (s : Sys) (r : ObjRef) : Prop :=
  match r.kind with
  | .awsMachineTemplate => s.templateRuns ⟨r.ns, r.name⟩ ≠ none
  | .awsManagedControlPlane => s.controlPlaneRuns ⟨r.ns, r.name⟩ ≠ none
  | _ => False

end Sys

/-- The runs where labels change only on objects without a controller finalizer and with no
reconcile in flight, and no object is created under the name of an object whose reconcile is in
flight. -/
def Orderly (s : Sys) : Action → Prop
  | .env (.create o) => ¬ s.Busy o.ref
  | .env (.setLabels r _) =>
    ¬ s.Busy r ∧ ∀ o ∈ s.store.objects, o.ref = r → ∀ f ∈ o.finalizers, controllerFinalizer f = false
  | _ => True

/-- The actions `Orderly` admits in every state: reconcile steps, and deletions and finalizer
writes of other actors. -/
def Action.unrestricted : Action → Bool
  | .env (.create _) | .env (.setLabels _ _) => false
  | _ => true

theorem orderly_of_unrestricted {s : Sys} {a : Action} (h : a.unrestricted = true) : Orderly s a := by
  cases a with
  | env e => cases e <;> trivial
  | _ => trivial

/-- A run of unrestricted actions is admitted by every admission that `Orderly` implies. -/
theorem Reachable.run_unrestricted {cfg : AWSMachineTemplateReconciler} {adm : Sys → Action → Prop}
    {s : Sys} (as : List Action) (hs : Reachable cfg adm s) (hadm : ∀ s a, Orderly s a → adm s a)
    (h : as.all Action.unrestricted = true) : Reachable cfg adm (s.run cfg as) :=
  Reachable.run as hs fun a ha s => hadm s a (orderly_of_unrestricted (List.all_eq_true.1 h a ha))

namespace Store

/-- The name of `t` holds no object but `t`'s, and that object has `t`'s labels. -/
structure Owns (st : Store) (t : Obj) : Prop where
  name : ∀ o ∈ st.objects, o.ref = t.ref → o.uid = t.uid
  labels : ∀ o ∈ st.objects, o.uid = t.uid → o.labels = t.labels

theorem Owns.of_get {st : Store} {r : ObjRef} {t : Obj} (h : st.get r = some t) : st.Owns t where
  name o ho hr := by rw [eq_of_mem_of_ref_eq ho (mem_of_get h) hr]
  labels o ho hu := by rw [List.inj_on_of_nodup_map st.uid_nodup ho (mem_of_get h) hu]

end Store

namespace Sys

variable {cfg : AWSMachineTemplateReconciler} {s : Sys} {a : Action} {t : Obj}

/-- `t`'s name stays `t`'s while the environment neither creates an object under it nor
relabels it. -/
theorem owns_step (h : s.store.Owns t) (hT : s.store.Tracks t)
    (hc : ∀ o, a = .env (.create o) → o.ref ≠ t.ref) (hl : ∀ l, a ≠ .env (.setLabels t.ref l)) :
    (s.step cfg a).store.Owns t where
  name o' ho' hr := by
    rcases step_new cfg s a ho' with ⟨o, ho, hst⟩ | ⟨o₀, ha, hr₀, -⟩
    · rw [hst.uid]
      exact h.name o ho (hst.ref ▸ hr)
    · exact absurd (hr₀ ▸ hr) (hc o₀ ha)
  labels o' ho' hu := by
    obtain ⟨o, ho, hst⟩ := step_new_of_lt cfg s a ho' (hu ▸ hT.uid_lt)
    have hu' : o.uid = t.uid := hst.uid ▸ hu
    rcases hst.labels with hl' | ⟨l, rfl⟩
    · rw [hl']
      exact h.labels o ho hu'
    · exact absurd (by rw [(hT.same o ho hu').1]) (hl l)

/-- An object keeps a controller's finalizer across a step, unless the step patches its name
with a list without it; then no object of that name carries it afterwards. -/
theorem step_keeps_or_drops {o : Obj} {g : String} (ho : o ∈ s.store.objects)
    (hg : controllerFinalizer g = true) (hgo : g ∈ o.finalizers) :
    (∃ o' ∈ (s.step cfg a).store.objects, ObjStep s a o o' ∧ g ∈ o'.finalizers) ∨
      ((∃ b m, s.callOf a = some (.patch o.ref b m) ∧ g ∉ m) ∧
        ∀ o' ∈ (s.step cfg a).store.objects, o'.ref = o.ref → g ∉ o'.finalizers) := by
  by_cases hk : ∃ o' ∈ (s.step cfg a).store.objects, o'.ref = o.ref ∧ g ∈ o'.finalizers
  · obtain ⟨o', ho', hr, hg'⟩ := hk
    rcases step_new cfg s a ho' with ⟨o₀, ho₀, hst⟩ | ⟨o₁, -, hr₁, -, -, -, -, hnone⟩
    · obtain rfl := Store.eq_of_mem_of_ref_eq ho₀ ho (hst.ref.symm.trans hr)
      exact .inl ⟨o', ho', hst, hg'⟩
    · rw [← hr₁, hr, Store.get_ref ho] at hnone
      cases hnone
  · push_neg at hk
    refine .inr ⟨?_, hk⟩
    rcases step_old cfg s a ho with ⟨o', ho', hst⟩ | (⟨b, hc⟩ | ⟨-, hf⟩) | ⟨hf, -⟩
    · have hn := hk o' ho' hst.ref
      rcases hst.finalizers with hf | ⟨b, hc⟩ | ⟨-, hf⟩
      · exact absurd (hf ▸ hgo) hn
      · exact ⟨b, _, hc, hn⟩
      · exact absurd ((hf g hg).2 hgo) hn
    · exact ⟨b, [], hc, List.not_mem_nil g⟩
    · exact absurd ((hf g hg).2 hgo) (List.not_mem_nil g)
    · exact absurd (hf ▸ hgo) (List.not_mem_nil g)

theorem carries_step {r : ObjRef} {g : String} (h : s.store.carries r g = true)
    (hg : controllerFinalizer g = true) (hp : ∀ b m, s.callOf a = some (.patch r b m) → g ∈ m) :
    (s.step cfg a).store.carries r g = true := by
  obtain ⟨o, ho, rfl, hgo⟩ := Store.carries_eq_true.1 h
  rcases step_keeps_or_drops ho hg hgo with ⟨o', ho', hst, hg'⟩ | ⟨⟨b, m, hc, hm⟩, -⟩
  · exact Store.carries_eq_true.2 ⟨o', ho', hst.ref, hg'⟩
  · exact absurd (hp b m hc) hm

end Sys

/-! ### Template reconciles -/

namespace AWSMachineTemplateReconciler

/-- What a template reconcile at `p` holds in `Orderly` runs: the name of its template, and the
finalizer on it from the moment it is seen or added until the role calls are made. -/
def Pc.Held (cfg : AWSMachineTemplateReconciler) (st : Store) : Pc → Prop
  | .get | .returned _ _ => True
  | .remote _ next => next.Held cfg st
  | .getAWSCluster c => st.Owns c.t ∧
    (controlPlaneFinalizer ∈ c.t.finalizers → st.carries c.t.ref controlPlaneFinalizer = true)
  | .addFinalizer c => st.Owns c.t ∧ controlPlaneFinalizer ∉ c.t.finalizers
  | .getAWSClusterNormal c | .reconcileRole c =>
    st.Owns c.t ∧ st.carries c.t.ref controlPlaneFinalizer = true
  | .reconcileRolesForIRSA c =>
    st.Owns c.t ∧ st.carries c.t.ref controlPlaneFinalizer = true ∧
      c.role = .controlPlaneRole ∧ cfg.enableRoute53Role = true
  | .isRoleUsedElsewhere c | .deleteRole c | .deleteRolesForIRSA c | .getAWSClusterToRelease c _
  | .removeFinalizer c _ _ _ _ | .refetch c _ _ _ _ | .getConfigMap c _ => st.Owns c.t

/-- How far a deletion run whose guard answered `false` has got: `1` once `DeleteRole`
succeeded, `2` once the IRSA roles of the cluster are behind it too. -/
def Pc.deleted : Pc → Nat
  | .remote _ next => next.deleted
  | .deleteRolesForIRSA _ => 1
  | .getAWSClusterToRelease _ false | .removeFinalizer _ false _ _ _ | .refetch _ false _ _ _
  | .getConfigMap _ false => 2
  | _ => 0

variable {cfg : AWSMachineTemplateReconciler} {st : Store} {req : NamespacedName} {c : Ctx}
  {p : Pc} {r : ObjRef} {b m : List String}

/-- A template reconcile patches an `AWSCluster` or a `ConfigMap`, adds its finalizer to its own
template, or patches its own template from `removeFinalizer`. -/
theorem Pc.Ok.patch_target (hp : p.Ok st req) (hc : p.call req.ns req.name = some (.patch r b m)) :
    (r.kind = .awsCluster ∨ r.kind = .configMap) ∨ (r = req.ref .awsMachineTemplate ∧
      (controlPlaneFinalizer ∈ m ∨ ∃ c u obj i, p = .removeFinalizer c u .awsMachineTemplate obj i)) := by
  cases p <;> simp only [Pc.call, Option.some.injEq, Call.patch.injEq, reduceCtorEq] at hc
  case removeFinalizer c u tg obj i =>
    obtain ⟨rfl, -, -⟩ := hc
    cases tg with
    | awsMachineTemplate => exact .inr ⟨hp.2.2.1.trans hp.1.ref, .inr ⟨c, u, obj, i, rfl⟩⟩
    | awsCluster => exact .inl (.inl hp.2.2.1)
    | configMap => exact .inl (.inr hp.2.2.1)
  case addFinalizer c =>
    obtain ⟨rfl, -, rfl⟩ := hc
    exact .inr ⟨hp.1.ref, .inl (Controllerutil.mem_addFinalizer.2 (.inr rfl))⟩

theorem Ctx.Ok.owns_step {s : Sys} {a : Action} (hk : c.Ok s.store req) (h : s.store.Owns c.t)
    (hc : ∀ o, a = .env (.create o) → o.ref ≠ req.ref .awsMachineTemplate)
    (hl : ∀ l, a ≠ .env (.setLabels (req.ref .awsMachineTemplate) l)) :
    (s.step cfg a).store.Owns c.t :=
  Sys.owns_step h hk.tracks (fun o ha => hk.ref ▸ hc o ha) fun l => hk.ref ▸ hl l

theorem Ctx.Ok.carries_step {s : Sys} {a : Action} (hk : c.Ok s.store req)
    (h : s.store.carries c.t.ref controlPlaneFinalizer = true)
    (hp : ∀ b m, s.callOf a = some (.patch (req.ref .awsMachineTemplate) b m) →
      controlPlaneFinalizer ∈ m) :
    (s.step cfg a).store.carries c.t.ref controlPlaneFinalizer = true :=
  Sys.carries_step h (by simp) fun b m hb => hp b m (hk.ref ▸ hb)

/-- The facts of a `Pc` survive a step that neither creates an object under the template's name
nor relabels it, and patches the finalizer away only from the run's own `removeFinalizer`. -/
theorem Pc.Held.step {s : Sys} {a : Action} (hp : p.Ok s.store req) (h : p.Held cfg s.store)
    (hc : ∀ o, a = .env (.create o) → o.ref ≠ req.ref .awsMachineTemplate)
    (hl : ∀ l, a ≠ .env (.setLabels (req.ref .awsMachineTemplate) l))
    (hpatch : ∀ b m, s.callOf a = some (.patch (req.ref .awsMachineTemplate) b m) →
      controlPlaneFinalizer ∈ m ∨ ∃ c u obj i, p = .removeFinalizer c u .awsMachineTemplate obj i) :
    p.Held cfg (s.step cfg a).store := by
  induction p with
  | get | returned => trivial
  | remote _ _ ih =>
    exact ih hp h fun b m hb => .inl ((hpatch b m hb).resolve_right (by rintro ⟨_, _, _, _, ⟨⟩⟩))
  | getAWSCluster c =>
    exact ⟨hp.owns_step h.1 hc hl, fun hf => hp.carries_step (h.2 hf) fun b m hb =>
      (hpatch b m hb).resolve_right (by rintro ⟨_, _, _, _, ⟨⟩⟩)⟩
  | addFinalizer c => exact ⟨hp.1.owns_step h.1 hc hl, h.2⟩
  | getAWSClusterNormal c | reconcileRole c =>
    exact ⟨hp.1.owns_step h.1 hc hl, hp.1.carries_step h.2 fun b m hb =>
      (hpatch b m hb).resolve_right (by rintro ⟨_, _, _, _, ⟨⟩⟩)⟩
  | reconcileRolesForIRSA c =>
    exact ⟨hp.1.owns_step h.1 hc hl, hp.1.carries_step h.2.1 (fun b m hb =>
      (hpatch b m hb).resolve_right (by rintro ⟨_, _, _, _, ⟨⟩⟩)), h.2.2⟩
  | _ => exact hp.1.owns_step h hc hl

theorem afterGet_held {t : Obj} (h : st.get (req.ref .awsMachineTemplate) = some t) :
    (afterGet t).Held cfg st := by
  unfold afterGet
  repeat' split
  all_goals first
    | trivial
    | exact ⟨.of_get h, fun hf => Store.carries_eq_true.2 ⟨t, Store.mem_of_get h, rfl, hf⟩⟩

theorem session_held (h : (Pc.getAWSCluster c).Held cfg st) : (session c).Held cfg st := by
  simp only [session, Pc.Held]
  split
  · exact h.1
  · rename_i hd
    split
    · exact ⟨h.1, h.2 (Controllerutil.containsFinalizer_iff.1 ‹_›)⟩
    · exact ⟨h.1, fun hf => ‹¬_› (Controllerutil.containsFinalizer_iff.2 hf)⟩

theorem afterRemove_held {u : Bool} {tg : Target} (h : st.Owns c.t) : (afterRemove c u tg).Held cfg st := by
  cases tg <;> simp only [afterRemove] <;> (try split) <;> first | exact h | trivial

theorem startRemove_held {u : Bool} {tg : Target} {obj : Obj} (h : st.Owns c.t) :
    (startRemove c u tg obj).Held cfg st := by
  unfold startRemove
  split
  · exact h
  · exact afterRemove_held h

theorem afterReconcileRole_held (h : (Pc.reconcileRole c).Held cfg st) :
    (afterReconcileRole cfg c).Held cfg st := by
  unfold afterReconcileRole
  split
  · rename_i hcp
    exact ⟨h.1, h.2, hcp.1, hcp.2⟩
  · trivial

/-- The reconcile's own call: the name stays owned, a finalizer seen on the template or added by
the reconcile stays until the role calls, which a control-plane template with `EnableRoute53Role`
reaches for the IRSA roles. -/
theorem Pc.Held.next (h : p.Held cfg st) {resp : Resp}
    (ha : ∀ c v, p.call req.ns req.name = some c → resp = .ok v → c.Answered st v) :
    (p.next cfg resp).Held cfg st := by
  cases resp with
  | error e =>
    cases p with
    | removeFinalizer =>
      cases e
      case invalid =>
        simp only [Pc.next]
        split
        · exact h
        · trivial
      all_goals trivial
    | get | getConfigMap => cases e <;> trivial
    | _ => trivial
  | ok v =>
    cases p with
    | get =>
      obtain ⟨t, rfl, ht⟩ := ha _ v rfl rfl
      exact afterGet_held ht
    | remote | deleteRolesForIRSA | getAWSClusterNormal => exact h
    | getAWSCluster => exact session_held h
    | isRoleUsedElsewhere | deleteRole =>
      cases v <;> simp only [Pc.next] <;> (try split) <;> first | exact h | trivial
    | getAWSClusterToRelease | getConfigMap =>
      cases v <;> simp only [Pc.next] <;> first | exact startRemove_held h | trivial
    | removeFinalizer =>
      simp only [Pc.next]
      split
      · exact h
      · exact afterRemove_held h
    | refetch => cases v <;> simp only [Pc.next] <;> first | exact h | trivial
    | addFinalizer c =>
      have hb : c.t.finalizers ≠ Controllerutil.addFinalizer c.t.finalizers controlPlaneFinalizer :=
        fun he => h.2 (he ▸ Controllerutil.mem_addFinalizer.2 (.inr rfl))
      obtain ⟨hfin, hex⟩ := ha _ v rfl rfl hb
      obtain ⟨o, ho, hr⟩ := hex Controllerutil.addFinalizer_ne_nil
      refine ⟨h.1, Store.carries_eq_true.2 ⟨o, ho, hr, ?_⟩⟩
      rw [hfin o ho hr]
      exact Controllerutil.mem_addFinalizer.2 (.inr rfl)
    | reconcileRole => exact afterReconcileRole_held h
    | _ => trivial

theorem afterGet_deleted (t : Obj) : (afterGet t).deleted = 0 := by
  unfold afterGet
  repeat' split
  all_goals rfl

theorem afterRemove_deleted {u : Bool} {tg : Target} :
    (afterRemove c u tg).deleted ≤ (Pc.getConfigMap c u).deleted := by
  cases u <;> cases tg <;> simp only [afterRemove] <;> (try split) <;> simp [Pc.deleted]

theorem startRemove_deleted {u : Bool} {tg : Target} {obj : Obj} :
    (startRemove c u tg obj).deleted ≤ (Pc.getConfigMap c u).deleted := by
  unfold startRemove
  split
  · cases u <;> simp [Pc.deleted]
  · exact afterRemove_deleted

theorem session_deleted : (session c).deleted = 0 := by
  simp only [session, Pc.deleted]
  repeat' split
  all_goals rfl

theorem afterReconcileRole_deleted : (afterReconcileRole cfg c).deleted = 0 := by
  unfold afterReconcileRole
  split <;> rfl

/-- Only a successful `DeleteRole` or `DeleteRolesForIRSA` moves a deletion run on. -/
theorem Pc.deleted_next (p : Pc) (resp : Resp) :
    (p.next cfg resp).deleted ≤ p.deleted ∨ ∃ c v, resp = .ok v ∧
      ((p = .deleteRole c ∧ (p.next cfg resp).deleted =
        if c.role = .controlPlaneRole ∧ cfg.enableRoute53Role = true then 1 else 2) ∨
        p = .deleteRolesForIRSA c) := by
  cases resp with
  | error e =>
    left
    cases p with
    | removeFinalizer c u =>
      cases e
      case invalid =>
        simp only [Pc.next]
        split <;> cases u <;> simp [Pc.deleted]
      all_goals exact Nat.zero_le _
    | get | getConfigMap => cases e <;> exact Nat.zero_le _
    | _ => exact Nat.zero_le _
  | ok v =>
    cases p with
    | deleteRole c =>
      refine .inr ⟨c, v, rfl, .inl ⟨rfl, ?_⟩⟩
      simp only [Pc.next]
      split <;> simp_all [Pc.deleted]
    | deleteRolesForIRSA c => exact .inr ⟨c, v, rfl, .inr rfl⟩
    | remote => exact .inl (Nat.le_refl _)
    | get => cases v <;> simp [Pc.next, afterGet_deleted, Pc.fail, Pc.deleted]
    | getAWSCluster => exact .inl (by simp [Pc.next, session_deleted])
    | isRoleUsedElsewhere =>
      left
      cases v <;> simp only [Pc.next] <;> (try split) <;> exact Nat.zero_le _
    | getAWSClusterToRelease c u | getConfigMap c u =>
      left
      cases v <;> simp only [Pc.next]
      all_goals first
        | exact startRemove_deleted.trans (by cases u <;> exact Nat.le_refl _)
        | exact Nat.zero_le _
    | removeFinalizer c u =>
      left
      simp only [Pc.next]
      split
      · cases u <;> exact Nat.le_refl _
      · exact afterRemove_deleted.trans (by cases u <;> exact Nat.le_refl _)
    | refetch c u =>
      left
      cases v <;> simp only [Pc.next]
      all_goals first | (cases u <;> exact Nat.le_refl _) | exact Nat.zero_le _
    | reconcileRole => exact .inl (by simp [Pc.next, afterReconcileRole_deleted])
    | _ => exact .inl (Nat.zero_le _)

end AWSMachineTemplateReconciler

/-! ### Control-plane reconciles -/

namespace AWSManagedControlPlaneReconciler

/-- What a control-plane reconcile at `p` holds in `Orderly` runs: the name of its object, and
the finalizer on it from the moment it is seen or added until `ReconcileRolesForIRSA`. -/
def Pc.Held (st : Store) : Pc → Prop
  | .get | .returned _ _ => True
  | .remote _ next => next.Held st
  | .addFinalizer c => st.Owns c.a ∧ irsaFinalizer ∉ c.a.finalizers
  | .reconcileRolesForIRSA c => st.Owns c.a ∧ st.carries c.a.ref irsaFinalizer = true
  | .deleteRolesForIRSA c | .removeFinalizer c => st.Owns c.a

/-- `1` once the deletion branch has deleted the cluster's IRSA roles. -/
def Pc.deleted : Pc → Nat
  | .remote _ next => next.deleted
  | .removeFinalizer _ => 1
  | _ => 0

variable {cfg : AWSMachineTemplateReconciler} {st : Store} {req : NamespacedName} {c : Ctx}
  {p : Pc} {r : ObjRef} {b m : List String}

theorem Pc.Ok.patch_target (hp : p.Ok st req) (hc : p.call req.ns req.name = some (.patch r b m)) :
    r = req.ref .awsManagedControlPlane ∧ (irsaFinalizer ∈ m ∨ ∃ c, p = .removeFinalizer c) := by
  cases p <;> simp only [Pc.call, Option.some.injEq, Call.patch.injEq, reduceCtorEq] at hc
  case removeFinalizer c =>
    obtain ⟨rfl, -, -⟩ := hc
    exact ⟨hp.ref, .inr ⟨c, rfl⟩⟩
  case addFinalizer c =>
    obtain ⟨rfl, -, rfl⟩ := hc
    exact ⟨hp.ref, .inl (Controllerutil.mem_addFinalizer.2 (.inr rfl))⟩

theorem Ctx.Ok.owns_step {s : Sys} {a : Action} (hk : c.Ok s.store req) (h : s.store.Owns c.a)
    (hc : ∀ o, a = .env (.create o) → o.ref ≠ req.ref .awsManagedControlPlane)
    (hl : ∀ l, a ≠ .env (.setLabels (req.ref .awsManagedControlPlane) l)) :
    (s.step cfg a).store.Owns c.a :=
  Sys.owns_step h hk.tracks (fun o ha => hk.ref ▸ hc o ha) fun l => hk.ref ▸ hl l

theorem Pc.Held.step {s : Sys} {a : Action} (hp : p.Ok s.store req) (h : p.Held s.store)
    (hc : ∀ o, a = .env (.create o) → o.ref ≠ req.ref .awsManagedControlPlane)
    (hl : ∀ l, a ≠ .env (.setLabels (req.ref .awsManagedControlPlane) l))
    (hpatch : ∀ b m, s.callOf a = some (.patch (req.ref .awsManagedControlPlane) b m) →
      irsaFinalizer ∈ m ∨ ∃ c, p = .removeFinalizer c) :
    p.Held (s.step cfg a).store := by
  induction p with
  | get | returned => trivial
  | remote _ _ ih =>
    exact ih hp h fun b m hb => .inl ((hpatch b m hb).resolve_right (by rintro ⟨_, ⟨⟩⟩))
  | addFinalizer c => exact ⟨hp.owns_step h.1 hc hl, h.2⟩
  | reconcileRolesForIRSA c =>
    exact ⟨hp.owns_step h.1 hc hl, Sys.carries_step h.2 (by simp) fun b m hb =>
      (hpatch b m (hp.ref ▸ hb)).resolve_right (by rintro ⟨_, ⟨⟩⟩)⟩
  | _ => exact hp.owns_step h hc hl

theorem afterGet_held {a : Obj} (h : st.get (req.ref .awsManagedControlPlane) = some a) :
    (afterGet a).Held st := by
  have hO := Store.Owns.of_get h
  unfold afterGet
  split
  · trivial
  · split
    · trivial
    · split
      · trivial
      · simp only [Pc.Held]
        split
        · exact hO
        · split
          · exact ⟨hO, Store.carries_eq_true.2 ⟨a, Store.mem_of_get h, rfl,
              Controllerutil.containsFinalizer_iff.1 ‹_›⟩⟩
          · exact ⟨hO, fun hf => ‹¬_› (Controllerutil.containsFinalizer_iff.2 hf)⟩

theorem Pc.Held.next (h : p.Held st) {resp : Resp}
    (ha : ∀ c v, p.call req.ns req.name = some c → resp = .ok v → c.Answered st v) :
    (p.next resp).Held st := by
  cases resp with
  | error e =>
    cases p with
    | get => cases e <;> trivial
    | _ => trivial
  | ok v =>
    cases p with
    | get =>
      obtain ⟨a, rfl, hget⟩ := ha _ v rfl rfl
      exact afterGet_held hget
    | remote => exact h
    | deleteRolesForIRSA c =>
      simp only [Pc.next]
      split
      · exact h
      · trivial
    | addFinalizer c =>
      have hb : c.a.finalizers ≠ Controllerutil.addFinalizer c.a.finalizers irsaFinalizer :=
        fun he => h.2 (he ▸ Controllerutil.mem_addFinalizer.2 (.inr rfl))
      obtain ⟨hfin, hex⟩ := ha _ v rfl rfl hb
      obtain ⟨o, ho, hr⟩ := hex Controllerutil.addFinalizer_ne_nil
      refine ⟨h.1, Store.carries_eq_true.2 ⟨o, ho, hr, ?_⟩⟩
      rw [hfin o ho hr]
      exact Controllerutil.mem_addFinalizer.2 (.inr rfl)
    | _ => trivial

theorem afterGet_deleted (a : Obj) : (afterGet a).deleted = 0 := by
  unfold afterGet
  repeat' split
  all_goals simp only [Pc.deleted]

/-- Only a successful `DeleteRolesForIRSA` moves the deletion branch on. -/
theorem Pc.deleted_next (p : Pc) (resp : Resp) :
    (p.next resp).deleted ≤ p.deleted ∨ ∃ c v, resp = .ok v ∧ p = .deleteRolesForIRSA c := by
  cases resp with
  | error e =>
    left
    cases p with
    | get => cases e <;> exact Nat.zero_le _
    | _ => exact Nat.zero_le _
  | ok v =>
    cases p with
    | deleteRolesForIRSA c => exact .inr ⟨c, v, rfl, rfl⟩
    | remote => exact .inl (Nat.le_refl _)
    | get => cases v <;> simp [Pc.next, afterGet_deleted, Pc.fail, Pc.deleted]
    | _ => exact .inl (Nat.zero_le _)

end AWSManagedControlPlaneReconciler

/-! ### Every state of an `Orderly` run -/

namespace Sys

variable {cfg : AWSMachineTemplateReconciler} {s : Sys} {a : Action} {req : NamespacedName}
  {r : ObjRef} {b m : List String}

/-- A patch of a template's name is a step of that template's reconcile: its `AddFinalizer`, or
its `removeFinalizer` on the template. -/
theorem patch_source_template (hW : s.Wf) (h : s.callOf a = some (.patch r b m))
    (hk : r.kind = .awsMachineTemplate) :
    ∃ req ch, a = .template req ch ∧ r = req.ref .awsMachineTemplate ∧ (controlPlaneFinalizer ∈ m ∨
      ∃ c u obj i, s.templateRuns req = some (.removeFinalizer c u .awsMachineTemplate obj i)) := by
  cases a with
  | template req ch =>
    obtain ⟨pc, hpc | ⟨-, rfl⟩, hc⟩ := callOf_template h
    · rcases (hW.template req pc hpc).patch_target hc with hne | ⟨rfl, hm⟩
      · rcases hne with hne | hne <;> rw [hk] at hne <;> cases hne
      · exact ⟨req, ch, rfl, rfl, hm.imp_right fun ⟨c, u, obj, i, he⟩ => ⟨c, u, obj, i, he ▸ hpc⟩⟩
    · cases hc
  | controlPlane req ch =>
    obtain ⟨pc, hpc | ⟨-, rfl⟩, hc⟩ := callOf_controlPlane h
    · obtain ⟨rfl, -⟩ := (hW.controlPlane req pc hpc).patch_target hc
      cases hk
    · cases hc
  | env e => cases h

/-- A patch of an `AWSManagedControlPlane`'s name is a step of its reconcile. -/
theorem patch_source_controlPlane (hW : s.Wf) (h : s.callOf a = some (.patch r b m))
    (hk : r.kind = .awsManagedControlPlane) :
    ∃ req ch, a = .controlPlane req ch ∧ r = req.ref .awsManagedControlPlane ∧
      (irsaFinalizer ∈ m ∨ ∃ c, s.controlPlaneRuns req = some (.removeFinalizer c)) := by
  cases a with
  | template req ch =>
    obtain ⟨pc, hpc | ⟨-, rfl⟩, hc⟩ := callOf_template h
    · rcases (hW.template req pc hpc).patch_target hc with hne | ⟨rfl, -⟩
      · rcases hne with hne | hne <;> rw [hk] at hne <;> cases hne
      · cases hk
    · cases hc
  | controlPlane req ch =>
    obtain ⟨pc, hpc | ⟨-, rfl⟩, hc⟩ := callOf_controlPlane h
    · obtain ⟨rfl, hm⟩ := (hW.controlPlane req pc hpc).patch_target hc
      exact ⟨req, ch, rfl, rfl, hm.imp_right fun ⟨c, he⟩ => ⟨c, he ▸ hpc⟩⟩
    · cases hc
  | env e => cases h

theorem NamespacedName.ref_inj {req req' : NamespacedName} {k : Kind} (h : req.ref k = req'.ref k) :
    req = req' := by
  cases req; cases req'; simp_all [NamespacedName.ref]

/-- Every reconcile in flight is `Held`. -/
structure Owned (cfg : AWSMachineTemplateReconciler) (s : Sys) : Prop where
  template : ∀ req p, s.templateRuns req = some p → p.Held cfg s.store
  controlPlane : ∀ req p, s.controlPlaneRuns req = some p → p.Held s.store

theorem Owned.init (cfg : AWSMachineTemplateReconciler) (st : Store) : (init st).Owned cfg :=
  ⟨fun _ _ h => (nomatch h), fun _ _ h => (nomatch h)⟩

open AWSMachineTemplateReconciler in
theorem Owned.step_template (hW : s.Wf) (h : s.Owned cfg) (hadm : Orderly s a) {p : Pc}
    (hp : (s.step cfg a).templateRuns req = some p) : p.Held cfg (s.step cfg a).store := by
  have hsrc : ∀ {q : Pc}, (s.templateRuns req = some q ∨ s.templateRuns req = none ∧ q = .get) →
      ∀ b m, s.callOf a = some (.patch (req.ref .awsMachineTemplate) b m) →
        controlPlaneFinalizer ∈ m ∨ ∃ c u obj i, q = .removeFinalizer c u .awsMachineTemplate obj i := by
    intro q hq b m hb
    obtain ⟨req', ch, -, hr, hm⟩ := patch_source_template hW hb rfl
    obtain rfl := NamespacedName.ref_inj hr.symm
    refine hm.imp_right fun ⟨c, u, obj, i, he⟩ => ⟨c, u, obj, i, ?_⟩
    rcases hq with hq | ⟨hq, -⟩ <;> rw [hq] at he <;> cases he
    rfl
  have hbusy : ∀ q, s.templateRuns req = some q → s.Busy (req.ref .awsMachineTemplate) :=
    fun q hq => by simp [Busy, NamespacedName.ref, hq]
  rcases templateRun_step cfg s a req with heq | hnone | ⟨ch, pc, c, rfl, hpc, hc, hrun, hst, -⟩
  · rw [heq] at hp
    refine (h.template req p hp).step (hW.template req p hp) (fun o ha hr => ?_) (fun l ha => ?_)
      (hsrc (.inl hp))
    · subst ha
      exact hadm (hr ▸ hbusy p hp)
    · subst ha
      exact hadm.1 (hbusy p hp)
  · rw [hnone] at hp
    cases hp
  · rw [hrun, Option.some.injEq] at hp
    subst hp
    have hok : pc.Ok s.store req := holds_of_run hpc (hW.template req) trivial
    have hheld : pc.Held cfg s.store := holds_of_run hpc (h.template req) trivial
    have hnew : pc.Held cfg (s.step cfg (.template req ch)).store :=
      hheld.step hok (fun o ha => nomatch ha) (fun l ha => nomatch ha) (hsrc hpc)
    rw [hst] at hnew ⊢
    exact hnew.next (World.answered_of_call hc)

open AWSManagedControlPlaneReconciler in
theorem Owned.step_controlPlane (hW : s.Wf) (h : s.Owned cfg) (hadm : Orderly s a) {p : Pc}
    (hp : (s.step cfg a).controlPlaneRuns req = some p) : p.Held (s.step cfg a).store := by
  have hsrc : ∀ {q : Pc}, (s.controlPlaneRuns req = some q ∨ s.controlPlaneRuns req = none ∧ q = .get) →
      ∀ b m, s.callOf a = some (.patch (req.ref .awsManagedControlPlane) b m) →
        irsaFinalizer ∈ m ∨ ∃ c, q = .removeFinalizer c := by
    intro q hq b m hb
    obtain ⟨req', ch, -, hr, hm⟩ := patch_source_controlPlane hW hb rfl
    obtain rfl := NamespacedName.ref_inj hr.symm
    refine hm.imp_right fun ⟨c, he⟩ => ⟨c, ?_⟩
    rcases hq with hq | ⟨hq, -⟩ <;> rw [hq] at he <;> cases he
    rfl
  have hbusy : ∀ q, s.controlPlaneRuns req = some q → s.Busy (req.ref .awsManagedControlPlane) :=
    fun q hq => by simp [Busy, NamespacedName.ref, hq]
  rcases controlPlaneRun_step cfg s a req with heq | hnone | ⟨ch, pc, c, rfl, hpc, hc, hrun, hst, -⟩
  · rw [heq] at hp
    refine (h.controlPlane req p hp).step (hW.controlPlane req p hp) (fun o ha hr => ?_)
      (fun l ha => ?_) (hsrc (.inl hp))
    · subst ha
      exact hadm (hr ▸ hbusy p hp)
    · subst ha
      exact hadm.1 (hbusy p hp)
  · rw [hnone] at hp
    cases hp
  · rw [hrun, Option.some.injEq] at hp
    subst hp
    have hok : pc.Ok s.store req := holds_of_run hpc (hW.controlPlane req) trivial
    have hheld : pc.Held s.store := holds_of_run hpc (h.controlPlane req) trivial
    have hnew : pc.Held (s.step cfg (.controlPlane req ch)).store :=
      hheld.step hok (fun o ha => nomatch ha) (fun l ha => nomatch ha) (hsrc hpc)
    rw [hst] at hnew ⊢
    exact hnew.next (World.answered_of_call hc)

theorem Owned.step (hW : s.Wf) (h : s.Owned cfg) (hadm : Orderly s a) : (s.step cfg a).Owned cfg :=
  ⟨fun _ _ hp => h.step_template hW hadm hp, fun _ _ hp => h.step_controlPlane hW hadm hp⟩

end Sys

/-- Every reconcile in flight is `Held` in every state of an `Orderly` run. -/
theorem Reachable.owned {cfg : AWSMachineTemplateReconciler} {s : Sys} (h : Reachable cfg Orderly s) :
    s.Owned cfg := by
  induction h with
  | init st => exact .init cfg st
  | step a hr hadm ih => exact ih.step hr.wf hadm

end CapaIam

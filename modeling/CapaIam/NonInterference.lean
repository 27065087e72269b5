import CapaIam.Converge
import CapaIam.WaitFree
/-!
# A template reconcile sees only its own actions

A reconcile of the template named `r` reads and writes only objects it `Sees`: `r` itself, the
`AWSCluster`s, and the cluster-values `ConfigMap`s; `isRoleUsedElsewhere` reads the other
templates, but only their uids and specs (`Pc.Ok.call_sees`). A normal reconcile of another live
template writes only the finalizers of that template, and IAM (`Pc.Live.write`). So take any
state, the reconcile of `r` anywhere in its run, and normal reconciles of other live templates
starting idle. Over any interleaving of their calls, any call failing, the reconcile of `r` runs
exactly as it runs on its own actions alone, and leaves every object it sees as it leaves it
alone (`template_reconcile_sees_only_its_own_actions`).

The proof is a simulation on stores. `Shadow r st st'` relates the objects of two stores one by
one: equal, or another template differing only in its finalizers. A call that names only what
`r` sees answers alike in shadowing stores and keeps them so (`Shadow.exec`); a finalizer patch
of another live template keeps them so from one side (`Shadow.update_left`).
-/

namespace CapaIam

/-- The names a reconcile of the template named `r` may read or write: `r`, and every object that
is not a template. -/
def Sees (r y : ObjRef) : Prop := y.kind = .awsMachineTemplate → y = r

/-- The objects `o` of one store and `o'` of another are alike to a reconcile of `r`: equal, or
another template differing at most in its finalizers. -/
def Unseen (r : ObjRef) (o o' : Obj) : Prop :=
  o' = o ∨ ¬ Sees r o.ref ∧ o' = { o with finalizers := o'.finalizers }

/-- The calls that name only what a reconcile of `r` sees. -/
def Call.Sees (r : ObjRef) : Call → Prop
  | .get y => CapaIam.Sees r y
  | .patch y _ _ => CapaIam.Sees r y
  | _ => True

namespace Unseen

variable {r : ObjRef} {o o' : Obj}

theorem refl (r : ObjRef) (o : Obj) : Unseen r o o := .inl rfl

theorem eq_with (h : Unseen r o o') : o' = { o with finalizers := o'.finalizers } := by
  rcases h with rfl | ⟨-, h⟩
  · rfl
  · exact h

theorem ref (h : Unseen r o o') : o'.ref = o.ref := by rw [h.eq_with]; rfl

theorem uid (h : Unseen r o o') : o'.uid = o.uid := by rw [h.eq_with]

theorem spec (h : Unseen r o o') : o'.spec = o.spec := by rw [h.eq_with]

theorem ns (h : Unseen r o o') : o'.ns = o.ns := by rw [h.eq_with]

theorem labels (h : Unseen r o o') : o'.labels = o.labels := by rw [h.eq_with]

theorem eq_of_sees (h : Unseen r o o') (hs : Sees r o.ref) : o' = o :=
  h.elim id fun h' => absurd hs h'.1

end Unseen

namespace Store

variable {r x : ObjRef} {st st' : Store} {l l' : List Obj}

/-- Two stores alike to a reconcile of `r`, object by object. -/
def Shadow (r : ObjRef) (st st' : Store) : Prop := List.Forall₂ (Unseen r) st.objects st'.objects

theorem Shadow.refl (r : ObjRef) (st : Store) : Shadow r st st :=
  List.forall₂_same.2 fun o _ => Unseen.refl r o

theorem find?_unseen (h : List.Forall₂ (Unseen r) l l') (hx : Sees r x) :
    l'.find? (·.ref == x) = l.find? (·.ref == x) := by
  induction h with
  | nil => rfl
  | @cons a b _ _ hab _ ih =>
    by_cases hax : a.ref = x
    · rw [hab.eq_of_sees (hax ▸ hx)]
      simp [List.find?_cons, hax]
    · simp [List.find?_cons, hab.ref, hax, ih]

theorem filter_unseen {P : Obj → Bool} (h : List.Forall₂ (Unseen r) l l')
    (hP : ∀ o o', Unseen r o o' → P o' = P o) (hs : ∀ o, P o = true → Sees r o.ref) :
    l'.filter P = l.filter P := by
  induction h with
  | nil => rfl
  | @cons a b _ _ hab _ ih =>
    rw [List.filter_cons, List.filter_cons, hP a b hab, ih]
    split
    · rename_i ha
      rw [hab.eq_of_sees (hs a ha)]
    · rfl

theorem any_unseen {P : Obj → Bool} (h : List.Forall₂ (Unseen r) l l')
    (hP : ∀ o o', Unseen r o o' → P o' = P o) : l'.any P = l.any P := by
  induction h with
  | nil => rfl
  | @cons a b _ _ hab _ ih => rw [List.any_cons, List.any_cons, hP a b hab, ih]

theorem updateObjects_unseen (h : List.Forall₂ (Unseen r) l l') (hx : Sees r x) (e : Edit) :
    List.Forall₂ (Unseen r) (updateObjects l x e) (updateObjects l' x e) := by
  unfold updateObjects
  induction h with
  | nil => exact .nil
  | @cons a b _ _ hab _ ih =>
    by_cases hax : a.ref = x
    · rw [hab.eq_of_sees (hax ▸ hx)]
      cases hc : (e.apply a).collected <;>
        simp only [List.map_cons, hax, List.filter_cons, Edit.ref_apply, hc, beq_self_eq_true,
          Bool.true_and, Bool.not_true, Bool.not_false, ↓reduceIte]
      · exact .cons (.refl r _) ih
      · exact ih
    · have hbx : b.ref ≠ x := hab.ref ▸ hax
      simp only [List.map_cons, hax, hbx, List.filter_cons, beq_eq_false_iff_ne.2 hax,
        beq_eq_false_iff_ne.2 hbx, Bool.false_and, Bool.not_false, ↓reduceIte]
      exact .cons hab ih

theorem updateObjects_unseen_left (h : List.Forall₂ (Unseen r) l l') (hx : ¬ Sees r x)
    (hlive : ∀ o ∈ l, o.ref = x → o.deletionTimestamp = false) (fs : List String) :
    List.Forall₂ (Unseen r) (updateObjects l x (.finalizers fs)) l' := by
  unfold updateObjects
  induction h with
  | nil => exact .nil
  | @cons a b _ _ hab _ ih =>
    have ih := ih fun o ho => hlive o (List.mem_cons_of_mem a ho)
    by_cases hax : a.ref = x
    · have hdel := hlive a (List.mem_cons_self a _) hax
      simp only [List.map_cons, hax, List.filter_cons, Edit.apply, Obj.collected, hdel,
        Bool.false_and, Bool.and_false, Bool.not_false, ↓reduceIte]
      refine .cons (.inr ⟨show ¬ Sees r a.ref by rw [hax]; exact hx, ?_⟩) ih
      rw [hab.eq_with, hdel]
    · simp only [List.map_cons, hax, List.filter_cons, beq_eq_false_iff_ne.2 hax, Bool.false_and,
        Bool.not_false, ↓reduceIte]
      exact .cons hab ih

theorem patch_congr (R : Store → Store → Prop) (h : R st st') (hget : st'.get x = st.get x)
    (hup : ∀ fs, R (st.update x (.finalizers fs)) (st'.update x (.finalizers fs))) (b m : List String) :
    (∃ e, st.patch x b m = .error e ∧ st'.patch x b m = .error e) ∨
      ∃ s₁ s₁', st.patch x b m = .ok s₁ ∧ st'.patch x b m = .ok s₁' ∧ R s₁ s₁' := by
  unfold Store.patch
  rw [hget]
  split
  · exact .inr ⟨_, _, rfl, rfl, h⟩
  · split
    · exact .inl ⟨_, rfl, rfl⟩
    · split
      · exact .inl ⟨_, rfl, rfl⟩
      · exact .inr ⟨_, _, rfl, rfl, hup _⟩

namespace Shadow

theorem get (h : Shadow r st st') (hx : Sees r x) : st'.get x = st.get x :=
  find?_unseen h hx

theorem getAWSClusterByName (h : Shadow r st st') (C ns : String) :
    st'.getAWSClusterByName C ns = st.getAWSClusterByName C ns := by
  unfold Store.getAWSClusterByName
  rw [filter_unseen h (fun o o' h' => by rw [h'.spec, h'.ns, h'.labels]) fun o ho => ?_]
  intro hk
  simp only [Bool.and_eq_true, beq_iff_eq] at ho
  simp [Obj.ref, ho.1.1, Spec.kind] at hk

theorem isRoleUsedElsewhere (h : Shadow r st st') (u : Nat) (P : String) :
    st'.isRoleUsedElsewhere u P = st.isRoleUsedElsewhere u P :=
  any_unseen h fun o o' h' => by rw [h'.uid, h'.spec]

theorem update (h : Shadow r st st') (hx : Sees r x) (e : Edit) :
    Shadow r (st.update x e) (st'.update x e) :=
  updateObjects_unseen h hx e

theorem update_left (h : Shadow r st st') (hx : ¬ Sees r x)
    (hlive : ∀ o ∈ st.objects, o.ref = x → o.deletionTimestamp = false) (fs : List String) :
    Shadow r (st.update x (.finalizers fs)) st' :=
  updateObjects_unseen_left h hx hlive fs

end Shadow

end Store

namespace World

variable {r : ObjRef} {w w' : World} {x : Call}

theorem write_congr (R : Store → Store → Prop) (h : R w.store w'.store)
    (hp : ∀ y b m, x = .patch y b m → w'.store.get y = w.store.get y ∧
      ∀ fs, R (w.store.update y (.finalizers fs)) (w'.store.update y (.finalizers fs))) :
    (∃ e, w.write x = .error e ∧ w'.write x = .error e) ∨
      ∃ w₁ w₁', w.write x = .ok w₁ ∧ w'.write x = .ok w₁' ∧ R w₁.store w₁'.store := by
  cases x with
  | patch y b m =>
    obtain ⟨hget, hup⟩ := hp y b m rfl
    rcases Store.patch_congr R h hget hup b m with ⟨e, he, he'⟩ | ⟨s₁, s₁', h₁, h₁', hs⟩
    · exact .inl ⟨e, by simp [write, he, Except.map], by simp [write, he', Except.map]⟩
    · exact .inr ⟨⟨s₁, w.iam⟩, ⟨s₁', w'.iam⟩, by simp [write, h₁, Except.map],
        by simp [write, h₁', Except.map], hs⟩
  | _ => exact .inr ⟨_, _, rfl, rfl, h⟩

theorem exec_congr (R : Store → Store → Prop) (h : R w.store w'.store)
    (hw : (∃ e, w.write x = .error e ∧ w'.write x = .error e) ∨
      ∃ w₁ w₁', w.write x = .ok w₁ ∧ w'.write x = .ok w₁' ∧ R w₁.store w₁'.store)
    (hr : w'.read x = w.read x) (ch : Choice) :
    (w'.exec x ch).2 = (w.exec x ch).2 ∧ R (w.exec x ch).1.store (w'.exec x ch).1.store := by
  rcases hw with ⟨e, he, he'⟩ | ⟨w₁, w₁', h₁, h₁', hs⟩
  · cases ch with
    | ok => simp only [exec, he, he', true_and]; exact h
    | fail applied => cases applied <;> simp only [exec, he, he', true_and, ite_true, ite_false,
        Bool.false_eq_true] <;> exact h
  · cases ch with
    | ok => simp only [exec, h₁, h₁', hr, true_and]; exact hs
    | fail applied =>
      cases applied <;> simp only [exec, h₁, h₁', true_and, ite_true, ite_false, Bool.false_eq_true]
      exacts [h, hs]

theorem write_shadow (h : Store.Shadow r w.store w'.store) (hx : x.Sees r) :
    (∃ e, w.write x = .error e ∧ w'.write x = .error e) ∨
      ∃ w₁ w₁', w.write x = .ok w₁ ∧ w'.write x = .ok w₁' ∧ Store.Shadow r w₁.store w₁'.store :=
  write_congr _ h fun y _ _ e => by
    subst e
    exact ⟨h.get hx, fun _ => h.update hx _⟩

theorem read_shadow (h : Store.Shadow r w.store w'.store) (hx : x.Sees r) : w'.read x = w.read x := by
  cases x with
  | get y => simp only [read, h.get hx]
  | getAWSClusterByName C ns => simp only [read, h.getAWSClusterByName]
  | isRoleUsedElsewhere u P => simp only [read, h.isRoleUsedElsewhere]
  | _ => rfl

theorem exec_get_of_sees {y : ObjRef} (hx : x.Sees r) (hy : ¬ Sees r y) (ch : Choice) :
    (w.exec x ch).1.store.get y = w.store.get y := by
  rcases exec_fst w x ch with h | h
  · rw [h]
  cases x with
  | patch z b m =>
    rcases Store.patch_eq_ok (write_patch.1 h).1 with ⟨-, hs⟩ | ⟨o, -, -, hs⟩
    · rw [hs]
    · rw [hs, Store.get_update_of_ne fun e => hy (by rw [e]; exact hx)]
  | _ => rw [write_store_of_not_patch (by intro _ _ _ h; cases h) h]

theorem exec_shadow (h : Store.Shadow r w.store w'.store) (hx : x.Sees r) (ch : Choice) :
    (w'.exec x ch).2 = (w.exec x ch).2 ∧ Store.Shadow r (w.exec x ch).1.store (w'.exec x ch).1.store :=
  exec_congr _ h (write_shadow h hx) (read_shadow h hx) ch

end World

namespace AWSMachineTemplateReconciler

variable {cfg : AWSMachineTemplateReconciler} {st : Store} {req : NamespacedName} {c : Ctx} {p : Pc}
  {x : Call} {B t obj : Obj} {tg : Target} {w w' : World} {ns name : String}

theorem Target.Holds.sees (hc : c.Ok st req) (h : tg.Holds c obj) :
    Sees (req.ref .awsMachineTemplate) obj.ref := fun hk => by
  cases tg with
  | awsMachineTemplate => exact h.trans hc.ref
  | _ => simp only [Target.Holds] at h; simp [Obj.ref, h] at hk

theorem Pc.Ok.call_sees (h : p.Ok st req) (hc : p.call req.ns req.name = some x) :
    x.Sees (req.ref .awsMachineTemplate) := by
  cases p with
  | get => cases hc; exact fun _ => rfl
  | removeFinalizer c u tg obj i => cases hc; exact h.2.2.1.sees h.1
  | refetch c u tg obj i => cases hc; exact h.2.2.1.sees h.1
  | getConfigMap c u => cases hc; exact fun hk => nomatch hk
  | addFinalizer c => cases hc; exact fun _ => h.1.ref
  | returned => cases hc
  | _ => cases hc; trivial

theorem afterGet_live (h : Stage B t) : (afterGet t).Live B := by
  unfold afterGet
  split
  · trivial
  · split
    · trivial
    · split
      · trivial
      · split
        · trivial
        · exact h

theorem session_live (h : Stage B c.t) (hlive : B.deletionTimestamp = false) : (session c).Live B := by
  simp only [session, Pc.Live, h.deletionTimestamp, hlive, Bool.false_eq_true, if_false]
  split <;> exact h

theorem afterReconcileRole_live (h : Stage B c.t) : (afterReconcileRole cfg c).Live B := by
  unfold afterReconcileRole
  split
  · exact h
  · trivial

/-- A normal reconcile of a live template stays normal, whatever a call answers, as long as the
`Get` reads the template at some stage. -/
theorem Pc.Live.next (hp : p.Live B) (hlive : B.deletionTimestamp = false) {resp : Resp}
    (hget : ∀ t, p = .get → resp = .ok (.obj t) → Stage B t) : (p.next cfg resp).Live B := by
  cases resp with
  | error e => cases p <;> first | exact hp.elim | (cases e <;> trivial)
  | ok v =>
    cases p with
    | get =>
      cases v with
      | obj t => exact afterGet_live (hget t rfl rfl)
      | _ => trivial
    | getAWSCluster c => exact session_live hp hlive
    | remote _ next => exact hp
    | addFinalizer c | getAWSClusterNormal c => exact hp
    | reconcileRole c => exact afterReconcileRole_live hp
    | reconcileRolesForIRSA c | returned => trivial
    | _ => exact hp.elim

end AWSMachineTemplateReconciler

namespace Sys

open AWSMachineTemplateReconciler

variable {cfg : AWSMachineTemplateReconciler} {s s' : Sys} {req req' : NamespacedName} {B B' : Obj}

theorem get_step_of_sees (hwf : s.Wf) {y : ObjRef} (hy : ¬ Sees (req.ref .awsMachineTemplate) y)
    (ch : Choice) : (s.step cfg (.template req ch)).store.get y = s.store.get y := by
  rcases step_template cfg s req ch with ⟨-, -, -, hs⟩ | ⟨pc, c, hpc, -, hc, hs⟩ <;> rw [hs]
  exact World.exec_get_of_sees
    ((holds_of_run hpc (hwf.template req) trivial : pc.Ok s.store req).call_sees hc) hy ch

/-- The reconcile of `req` works normally on the live template `B`: `B` is stored at some stage,
and the run, if any, stands where `Pc.Live` allows. -/
structure LiveRun (s : Sys) (req : NamespacedName) (B : Obj) : Prop where
  live : B.deletionTimestamp = false
  ref : B.ref = req.ref .awsMachineTemplate
  stored : ∃ t, s.store.get B.ref = some t ∧ Stage B t
  run : ∀ p, s.templateRuns req = some p → p.Live B

namespace LiveRun

theorem live_at (h : LiveRun s req B) :
    ∀ o ∈ s.store.objects, o.ref = B.ref → o.deletionTimestamp = false := fun o ho hr => by
  obtain ⟨t, ht, hst⟩ := h.stored
  rw [Store.eq_of_mem_of_ref_eq ho (Store.mem_of_get ht) (hr.trans (Store.ref_of_get ht).symm),
    hst.deletionTimestamp, h.live]

theorem unseen (h : LiveRun s req' B) (hne : req' ≠ req) : ¬ Sees (req.ref .awsMachineTemplate) B.ref :=
  fun hs => hne (NamespacedName.ref_inj (h.ref.symm.trans (hs (by rw [h.ref]; rfl))))

theorem ref_ne (h : LiveRun s req B) (h' : LiveRun s' req' B') (hne : req ≠ req') : B.ref ≠ B'.ref :=
  fun e => hne (NamespacedName.ref_inj (h.ref.symm.trans (e.trans h'.ref)))

theorem step_store (h : LiveRun s req B) (ch : Choice) :
    (s.step cfg (.template req ch)).store = s.store ∨
      (s.step cfg (.template req ch)).store = s.store.update B.ref
        (.finalizers (Controllerutil.addFinalizer B.finalizers controlPlaneFinalizer)) := by
  rcases step_template cfg s req ch with ⟨-, -, -, hs⟩ | ⟨pc, c, hpc, -, hc, hs⟩ <;> rw [hs]
  · exact .inl rfl
  rcases World.exec_fst s.world c ch with he | he
  · exact .inl (by rw [he]; rfl)
  rcases (holds_of_run hpc h.run trivial : pc.Live B).write hc he with he' | he' | ⟨he', -⟩
  · exact .inl (by rw [he']; rfl)
  · exact .inr (by rw [he']; rfl)
  · exact .inl he'

theorem get_step_of_ne (h : LiveRun s req B) {y : ObjRef} (hy : y ≠ B.ref) (ch : Choice) :
    (s.step cfg (.template req ch)).store.get y = s.store.get y := by
  rcases h.step_store ch with hs | hs <;> rw [hs]
  exact Store.get_update_of_ne hy

/-- A step of the reconcile keeps it normal, whatever the call answers. -/
theorem own (h : LiveRun s req B) (ch : Choice) : LiveRun (s.step cfg (.template req ch)) req B := by
  obtain ⟨t₀, ht₀, hs₀⟩ := h.stored
  refine ⟨h.live, h.ref, ?_, fun p hp => ?_⟩
  · rcases h.step_store ch with hs | hs <;> rw [hs]
    · exact ⟨t₀, ht₀, hs₀⟩
    · exact ⟨_, hs₀.get_update ht₀ h.live, Stage.marked B⟩
  rcases step_template cfg s req ch with ⟨-, -, -, hs⟩ | ⟨pc, c, hpc, -, hc, hs⟩ <;>
    rw [hs] at hp <;> simp only [Function.update_same, Option.some.injEq, reduceCtorEq] at hp
  subst hp
  refine (holds_of_run hpc h.run trivial : pc.Live B).next h.live fun t hg hans => ?_
  subst hg
  cases hc
  obtain ⟨-, -, hv⟩ := World.exec_snd_ok hans
  have hget : s.world.store.get ⟨.awsMachineTemplate, req.ns, req.name⟩ = some t₀ := by
    rw [show (⟨.awsMachineTemplate, req.ns, req.name⟩ : ObjRef) = B.ref from h.ref.symm]
    exact ht₀
  simp only [World.read, hget, Except.ok.injEq, Val.obj.injEq] at hv
  rw [← hv]
  exact hs₀

theorem frame (h : LiveRun s req B) {a : Action} (hget : (s.step cfg a).store.get B.ref = s.store.get B.ref)
    (hrun : (s.step cfg a).templateRuns req = s.templateRuns req) : LiveRun (s.step cfg a) req B :=
  ⟨h.live, h.ref, by rw [hget]; exact h.stored, fun p hp => h.run p (hrun ▸ hp)⟩

end LiveRun

/-- `s'` holds the run of `req` that `s` holds, and a store alike to it. -/
structure Shadows (req : NamespacedName) (s s' : Sys) : Prop where
  store : Store.Shadow (req.ref .awsMachineTemplate) s.store s'.store
  run : s'.templateRuns req = s.templateRuns req

theorem Shadows.refl (req : NamespacedName) (s : Sys) : Shadows req s s :=
  ⟨Store.Shadow.refl _ _, rfl⟩

theorem Shadows.own (hwf : s.Wf) (h : Shadows req s s') (ch : Choice) :
    Shadows req (s.step cfg (.template req ch)) (s'.step cfg (.template req ch)) := by
  rcases step_template cfg s req ch with ⟨t, r, hrun, hs⟩ | ⟨pc, c, hpc, -, hc, hs⟩
  · rw [hs, step_template_of_returned (h.run.trans hrun)]
    exact ⟨h.store, by simp⟩
  · rw [hs, step_template_of_call (h.run ▸ hpc) hc]
    obtain ⟨hans, hst⟩ := @World.exec_shadow _ s.world s'.world _ h.store
      ((holds_of_run hpc (hwf.template req) trivial : pc.Ok s.store req).call_sees hc) ch
    exact ⟨hst, by simp [hans]⟩

theorem Shadows.other (h : Shadows req s s') (hB : LiveRun s req' B) (hne : req' ≠ req) (ch : Choice) :
    Shadows req (s.step cfg (.template req' ch)) s' := by
  refine ⟨?_, h.run.trans (templateRuns_template_of_ne ch (Ne.symm hne)).symm⟩
  rcases hB.step_store ch with hs | hs <;> rw [hs]
  · exact h.store
  · exact h.store.update_left (hB.unseen hne) hB.live_at _

/-- Over any interleaving of the reconcile of `req` with normal reconciles of other live
templates, the system shadows the run of the reconcile of `req` on its own actions alone. -/
theorem shadows_run {reqs : List NamespacedName} (hreq : ∀ r ∈ reqs, r ≠ req) :
    ∀ (as : List Action) (s s' : Sys),
      (∀ a ∈ as, ∃ ch, a = .template req ch ∨ ∃ r ∈ reqs, a = .template r ch) →
      s.Wf → (∀ r ∈ reqs, ∃ B, LiveRun s r B) → Shadows req s s' →
      Shadows req (s.run cfg as) (s'.run cfg (as.filter (Action.ofTemplate req)))
  | [], _, _, _, _, _, h => h
  | a :: as, s, s', has, hwf, hl, h => by
    have has' := fun b hb => has b (List.mem_cons_of_mem a hb)
    obtain ⟨ch, rfl | ⟨r', hr', rfl⟩⟩ := has a (List.mem_cons_self a as)
    · rw [List.filter_cons_of_pos (by simp [Action.ofTemplate])]
      refine shadows_run hreq as _ _ has' (hwf.step cfg _) (fun r hr => ?_) (h.own hwf ch)
      obtain ⟨B, hB⟩ := hl r hr
      exact ⟨B, hB.frame (get_step_of_sees hwf (hB.unseen (hreq r hr)) ch)
        (templateRuns_template_of_ne ch (hreq r hr))⟩
    · rw [List.filter_cons_of_neg (by simp [Action.ofTemplate, hreq r' hr'])]
      obtain ⟨B', hB'⟩ := hl r' hr'
      refine shadows_run hreq as _ _ has' (hwf.step cfg _) (fun r hr => ?_) (h.other hB' (hreq r' hr') ch)
      obtain ⟨B, hB⟩ := hl r hr
      by_cases he : r = r'
      · subst he
        exact ⟨B', hB'.own ch⟩
      · exact ⟨B, hB.frame (hB'.get_step_of_ne (hB.ref_ne hB' he) ch) (templateRuns_template_of_ne ch he)⟩

theorem liveRuns_init {reqs : List NamespacedName}
    (hothers : ∀ r ∈ reqs, r ≠ req ∧ s.templateRuns r = none ∧
      ∃ B, s.store.get (r.ref .awsMachineTemplate) = some B ∧ B.deletionTimestamp = false) :
    ∀ r ∈ reqs, ∃ B, LiveRun s r B := fun r hr => by
  obtain ⟨-, hidle, B, hB, hlive⟩ := hothers r hr
  refine ⟨B, hlive, Store.ref_of_get hB, ⟨B, by rw [Store.ref_of_get hB]; exact hB, Stage.refl B⟩,
    fun p hp => ?_⟩
  rw [hidle] at hp
  cases hp

/-- Take any reachable state, the reconcile of `req` anywhere in its run, and reconciles of other
live templates, none in flight. Over any interleaving of their calls, any call failing, the
reconcile of `req` stands exactly where it stands on its own actions alone, and every object it
sees (its template, the `AWSCluster`s, the `ConfigMap`s) is as its own actions alone leave it: the
normal reconciles of the other templates write only their own templates' finalizers and IAM, and
it reads the other templates only for their uids and specs. -/
theorem template_reconcile_sees_only_its_own_actions {adm : Sys → Action → Prop}
    (hs : Reachable cfg adm s) (reqs : List NamespacedName)
    (hothers : ∀ r ∈ reqs, r ≠ req ∧ s.templateRuns r = none ∧
      ∃ B, s.store.get (r.ref .awsMachineTemplate) = some B ∧ B.deletionTimestamp = false)
    (as : List Action) (has : ∀ a ∈ as, ∃ ch, a = .template req ch ∨ ∃ r ∈ reqs, a = .template r ch) :
    (s.run cfg as).templateRuns req = (s.run cfg (as.filter (Action.ofTemplate req))).templateRuns req ∧
      ∀ y, Sees (req.ref .awsMachineTemplate) y →
        (s.run cfg as).store.get y = (s.run cfg (as.filter (Action.ofTemplate req))).store.get y := by
  have h := @shadows_run cfg req reqs (fun r hr => (hothers r hr).1) as s s has hs.wf
    (liveRuns_init hothers) (Shadows.refl req s)
  exact ⟨h.run.symm, fun y hy => (h.store.get hy).symm⟩

/-- A rollover halfway: the old control-plane template being deleted, the new one live and
declaring the same profile, and their cluster, all claimed. -/
def rolloverRetiring : Obj :=
  ⟨1, "ns", "cp-old", .awsMachineTemplate "cp-role", ⟨some "c", some "capi", some "control-plane"⟩, true,
    [controlPlaneFinalizer]⟩

def rolloverClaimedCluster : Obj :=
  ⟨0, "ns", "cluster", .awsCluster, ⟨some "c", none, none⟩, false, [controlPlaneFinalizer]⟩

def rolloverHalfway : Store where
  objects := [rolloverClaimedCluster, rolloverRetiring, rolloverNewLive]
  nextUid := 3
  nodup := by decide
  uid_nodup := by decide
  uid_lt := by decide

/-- The deletion of the old template and the reconcile of the new one, one call each in turn, the
new one's calls failing after their effect. -/
def rolloverHandover : List Action :=
  (List.replicate 18 [.template ⟨"ns", "cp-old"⟩ .ok, .template ⟨"ns", "cp-new"⟩ (.fail true)]).flatten

theorem rolloverHandover_actions : ∀ a ∈ rolloverHandover, ∃ ch, a = .template ⟨"ns", "cp-old"⟩ ch ∨
    ∃ r ∈ [(⟨"ns", "cp-new"⟩ : NamespacedName)], a = .template r ch := by
  intro a ha
  obtain ⟨l, hl, ha⟩ := List.mem_flatten.1 ha
  rw [(List.mem_replicate.1 hl).2] at ha
  simp only [List.mem_cons, List.mem_singleton, List.not_mem_nil, or_false] at ha
  rcases ha with rfl | rfl
  · exact ⟨_, .inl rfl⟩
  · exact ⟨_, .inr ⟨_, List.mem_singleton_self _, rfl⟩⟩

theorem rolloverHalfway_others : ∀ r ∈ [(⟨"ns", "cp-new"⟩ : NamespacedName)],
    r ≠ ⟨"ns", "cp-old"⟩ ∧ (init rolloverHalfway).templateRuns r = none ∧
      ∃ B, (init rolloverHalfway).store.get (r.ref .awsMachineTemplate) = some B ∧
        B.deletionTimestamp = false := by
  intro r hr
  rw [List.mem_singleton.1 hr]
  exact ⟨by decide, rfl, rolloverNewLive, by decide, rfl⟩

theorem rollover_deletion_sees_only_itself :
    ((init rolloverHalfway).run ⟨true⟩ rolloverHandover).templateRuns ⟨"ns", "cp-old"⟩ =
        ((init rolloverHalfway).run ⟨true⟩
          (rolloverHandover.filter (Action.ofTemplate ⟨"ns", "cp-old"⟩))).templateRuns ⟨"ns", "cp-old"⟩ ∧
      ∀ y, Sees (NamespacedName.ref ⟨"ns", "cp-old"⟩ .awsMachineTemplate) y →
        ((init rolloverHalfway).run ⟨true⟩ rolloverHandover).store.get y =
          ((init rolloverHalfway).run ⟨true⟩
            (rolloverHandover.filter (Action.ofTemplate ⟨"ns", "cp-old"⟩))).store.get y :=
  template_reconcile_sees_only_its_own_actions
    (show Reachable ⟨true⟩ (fun _ _ => True) (init rolloverHalfway) from .init rolloverHalfway) _
    rolloverHalfway_others
    rolloverHandover rolloverHandover_actions

/-- In particular a deletion reconcile, among normal reconciles of other live templates and every
call of its own going through, completes as it does alone: it returns nil after the calls it makes
alone, and none of its `AWSCluster`, its template and the cluster-values `ConfigMap` holds
`FinalizerName(ControlPlaneRole)`, whatever the others did meanwhile and whichever of their calls
failed. -/
theorem concurrent_delete_reconcile_releases {adm : Sys → Action → Prop}
    (hs : Reachable cfg adm s) (reqs : List NamespacedName)
    (hothers : ∀ r ∈ reqs, r ≠ req ∧ s.templateRuns r = none ∧
      ∃ B, s.store.get (r.ref .awsMachineTemplate) = some B ∧ B.deletionTimestamp = false)
    (as : List Action) (has : ∀ a ∈ as, a = .template req .ok ∨ ∃ r ∈ reqs, ∃ ch, a = .template r ch)
    {t aws : Obj} {role : RoleType} {C : String} (hrun : s.templateRuns req = none)
    (ht : s.store.get (req.ref .awsMachineTemplate) = some t)
    (hwatch : Key.hasCapiWatchLabel t.labels = true) (hrole : roleOf t.labels = some role)
    (hcl : Key.getClusterIDFromLabels t.labels = some C) (hprof : t.spec.iamInstanceProfile ≠ "")
    (hdel : t.deletionTimestamp = true) (haws : s.store.getAWSClusterByName C req.ns = .ok aws)
    (hn : (as.filter (Action.ofTemplate req)).length = deleteCalls cfg ⟨t, role, C⟩ aws s.store) :
    (s.run cfg as).templateRuns req = some (.returned (some t) (⟨false⟩, none)) ∧
      ∀ o ∈ (s.run cfg as).store.objects, (o.ref = aws.ref ∨ o.ref = req.ref .awsMachineTemplate ∨
        o.ref = ⟨.configMap, req.ns, C ++ "-cluster-values"⟩) → controlPlaneFinalizer ∉ o.finalizers := by
  have has' : ∀ a ∈ as, ∃ ch, a = .template req ch ∨ ∃ r ∈ reqs, a = .template r ch := fun a ha => by
    rcases has a ha with rfl | ⟨r, hr, ch, rfl⟩
    exacts [⟨_, .inl rfl⟩, ⟨ch, .inr ⟨r, hr, rfl⟩⟩]
  have h := @shadows_run cfg req reqs (fun r hr => (hothers r hr).1) as s s has' hs.wf
    (liveRuns_init hothers) (Shadows.refl req s)
  -- its own actions are `deleteCalls` calls that go through: the deletion run alone
  have hfilter : as.filter (Action.ofTemplate req) =
      List.replicate (deleteCalls cfg ⟨t, role, C⟩ aws s.store) (.template req .ok) := by
    rw [← hn]
    refine List.eq_replicate_of_mem fun b hb => ?_
    obtain ⟨hb, hown⟩ := List.mem_filter.1 hb
    rcases has b hb with rfl | ⟨r, hr, ch, rfl⟩
    · rfl
    · simp [Action.ofTemplate, (hothers r hr).1] at hown
  rw [hfilter] at h
  obtain ⟨hq, hw⟩ :=
    templateAlone_returned (alone_delete ht hwatch hrole hcl hprof hdel haws) (.inr ⟨hrun, rfl⟩)
  refine ⟨h.run.symm.trans hq, fun o ho hr => ?_⟩
  have htref : t.ref = req.ref .awsMachineTemplate := Store.ref_of_get ht
  have hns : t.ns = req.ns := congrArg ObjRef.ns htref
  have hak : aws.ref.kind = .awsCluster := by
    simp [Obj.ref, (Store.mem_of_getAWSClusterByName haws).2, Spec.kind]
  have hy : Sees (req.ref .awsMachineTemplate) o.ref := by
    rcases hr with hr | hr | hr <;> rw [hr]
    · exact fun hk => by rw [hak] at hk; cases hk
    · exact fun _ => rfl
    · exact fun hk => by cases hk
  have hget : (deleteWorld cfg ⟨t, role, C⟩ aws s.world).store.get o.ref = some o := by
    rw [← hw]
    exact (h.store.get hy).trans (Store.get_ref ho)
  have ht' : s.world.store.get t.ref = some t := by rw [htref]; exact ht
  exact (deleteWorld_releases ht' (by rw [htref]; rfl) haws).1 o (Store.mem_of_get hget)
    (by rw [htref, hns]; exact hr)

theorem rollover_deletion_releases :
    ((init rolloverHalfway).run ⟨true⟩ rolloverHandover).templateRuns ⟨"ns", "cp-old"⟩ =
        some (.returned (some rolloverRetiring) (⟨false⟩, none)) ∧
      ∀ o ∈ ((init rolloverHalfway).run ⟨true⟩ rolloverHandover).store.objects,
        (o.ref = rolloverClaimedCluster.ref ∨ o.ref = NamespacedName.ref ⟨"ns", "cp-old"⟩ .awsMachineTemplate ∨
          o.ref = ⟨.configMap, "ns", "c" ++ "-cluster-values"⟩) → controlPlaneFinalizer ∉ o.finalizers :=
  concurrent_delete_reconcile_releases
    (show Reachable ⟨true⟩ (fun _ _ => True) (init rolloverHalfway) from .init rolloverHalfway) _
    rolloverHalfway_others rolloverHandover
    (fun a ha => by
      obtain ⟨l, hl, ha⟩ := List.mem_flatten.1 ha
      rw [(List.mem_replicate.1 hl).2] at ha
      simp only [List.mem_cons, List.mem_singleton, List.not_mem_nil, or_false] at ha
      rcases ha with rfl | rfl
      · exact .inl rfl
      · exact .inr ⟨_, List.mem_singleton_self _, _, rfl⟩)
    rfl (by decide) (by decide) (show roleOf rolloverRetiring.labels = some .controlPlaneRole by decide)
    (by decide) (by decide) rfl
    (show rolloverHalfway.getAWSClusterByName "c" "ns" = .ok rolloverClaimedCluster from rfl) (by decide)

end Sys

end CapaIam

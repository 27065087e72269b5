import CapaIam.Converge
import CapaIam.WaitFree
/-!
# A reconcile among others runs as it runs alone

On the normal path a template reconcile reads only its template and the cluster lookup, and
writes only its template and IAM. The other normal reconciles write only their own templates and
IAM, so they never change an answer it gets. Take any interleaving of the reconciles of live
templates in which the calls of one of them go through. Its run, and its template in the store,
are then exactly those of the reconcile run alone for as many calls (`reconcile_runs_as_alone`).
In particular it returns nil, its template marked, after the calls it makes alone
(`concurrent_normal_reconcile_completes`).

The proof is a simulation. `SameView r w w'` says that two worlds hold the same object named `r`
and answer every cluster lookup alike; on the normal path a call answers alike in such worlds and
keeps them so (`Pc.Normal.exec_sameView`). A step of the reconcile is matched by a step of the
alone run; a step of another reconcile is matched by none, and keeps the relation.
-/

namespace CapaIam

namespace Store

variable {s s' : Store} {r : ObjRef} {e : Edit}

theorem get_update_self :
    (s.update r e).get r = (s.get r).bind fun o => if (e.apply o).collected then none else some (e.apply o) := by
  cases h : s.get r with
  | none =>
    refine Option.eq_none_iff_forall_not_mem.2 fun o ho => ?_
    rw [Option.mem_def, get_eq_some] at ho
    rcases mem_update.1 ho.1 with ⟨hne, -⟩ | ⟨o₀, h₀, hr, -, -⟩
    · exact hne ho.2
    · rw [get_eq_some.2 ⟨h₀, hr⟩] at h
      cases h
  | some o =>
    simp only [Option.some_bind]
    cases hc : (e.apply o).collected <;> simp only [Bool.false_eq_true, if_false, if_true]
    · exact get_eq_some.2 ⟨mem_update.2 (.inr ⟨o, mem_of_get h, ref_of_get h, rfl, by simp [hc]⟩),
        (Edit.ref_apply e o).trans (ref_of_get h)⟩
    · refine Option.eq_none_iff_forall_not_mem.2 fun o' ho' => ?_
      rw [Option.mem_def, get_eq_some] at ho'
      rcases mem_update.1 ho'.1 with ⟨hne, -⟩ | ⟨o₀, h₀, hr, rfl, hc'⟩
      · exact hne ho'.2
      · obtain rfl := eq_of_mem_of_ref_eq h₀ (mem_of_get h) (hr.trans (ref_of_get h).symm)
        simp [hc] at hc'

theorem get_update_congr (h : s'.get r = s.get r) : (s'.update r e).get r = (s.update r e).get r := by
  rw [get_update_self, get_update_self, h]

end Store

namespace AWSMachineTemplateReconciler

/-- Two worlds a normal reconcile of the template named `r` cannot tell apart: the same object of
that name, and the same answer to every cluster lookup. -/
structure SameView (r : ObjRef) (w w' : World) : Prop where
  get : w'.store.get r = w.store.get r
  lookup : ∀ C ns, w'.store.getAWSClusterByName C ns = w.store.getAWSClusterByName C ns

variable {cfg : AWSMachineTemplateReconciler} {A : Obj} {role : RoleType} {C : String}
  {w w' : World} {p : Pc} {x : Call} {r : ObjRef}

theorem SameView.refl (r : ObjRef) (w : World) : SameView r w w := ⟨rfl, fun _ _ => rfl⟩

theorem SameView.symm (h : SameView r w w') : SameView r w' w :=
  ⟨h.get.symm, fun C ns => (h.lookup C ns).symm⟩

theorem SameView.trans {w'' : World} (h : SameView r w w') (h' : SameView r w' w'') : SameView r w w'' :=
  ⟨h'.get.trans h.get, fun C ns => (h'.lookup C ns).trans (h.lookup C ns)⟩

theorem SameView.of_store (hv : SameView r w w') (hs : (w.exec x .ok).1.store = w.store)
    (hs' : (w'.exec x .ok).1.store = w'.store) : SameView r (w.exec x .ok).1 (w'.exec x .ok).1 :=
  ⟨by rw [hs, hs', hv.get], fun C ns => by rw [hs, hs', hv.lookup]⟩

/-- A patch of the template named `r` answers alike in worlds that look alike, and keeps them so. -/
theorem SameView.patch (hv : SameView r w w') (hk : r.kind ≠ .awsCluster) (b m : List String) :
    (w'.exec (.patch r b m) .ok).2 = (w.exec (.patch r b m) .ok).2 ∧
      SameView r (w.exec (.patch r b m) .ok).1 (w'.exec (.patch r b m) .ok).1 := by
  simp only [World.exec, World.write, Store.patch, hv.get]
  split_ifs with hbm
  · exact ⟨rfl, hv⟩
  · cases hget : w.store.get r with
    | none => exact ⟨rfl, hv⟩
    | some o =>
      dsimp only
      split_ifs
      · exact ⟨rfl, hv⟩
      · simp only [Except.map]
        refine ⟨rfl, Store.get_update_congr hv.get, fun C ns => ?_⟩
        rw [Store.getAWSClusterByName_update hk, Store.getAWSClusterByName_update hk, hv.lookup]

/-- On the normal path of a reconcile of `A`, a call that goes through answers alike in worlds
that look alike to `A`, and keeps them so. -/
theorem Pc.Normal.exec_sameView {req : NamespacedName} (href : A.ref = req.ref .awsMachineTemplate)
    (hp : p.Normal cfg A role C w) (hc : p.call req.ns req.name = some x)
    (hv : SameView (req.ref .awsMachineTemplate) w w') :
    (w'.exec x .ok).2 = (w.exec x .ok).2 ∧
      SameView (req.ref .awsMachineTemplate) (w.exec x .ok).1 (w'.exec x .ok).1 := by
  cases p with
  | get =>
    cases hc
    exact ⟨by simp only [World.exec, World.write, World.read]; rw [show
      (⟨.awsMachineTemplate, req.ns, req.name⟩ : ObjRef) = req.ref .awsMachineTemplate from rfl, hv.get],
      hv.of_store rfl rfl⟩
  | getAWSCluster c | getAWSClusterNormal c =>
    cases hc
    exact ⟨by simp only [World.exec, World.write, World.read, hv.lookup], hv.of_store rfl rfl⟩
  | remote r next =>
    cases hc
    exact ⟨rfl, hv.of_store rfl rfl⟩
  | addFinalizer c =>
    cases hc
    rw [hp.1.ref.trans href]
    exact hv.patch (by simp [NamespacedName.ref]) _ _
  | reconcileRole c | reconcileRolesForIRSA c =>
    cases hc
    exact ⟨rfl, hv.of_store rfl rfl⟩
  | returned => cases hc
  | _ => exact hp.elim

theorem Pc.Normal.exec_sameView_other {B : Obj} {ns name : String} (hp : p.Normal cfg B role C w)
    (hc : p.call ns name = some x) (hB : B.ref.kind ≠ .awsCluster) (hr : r ≠ B.ref) (ch : Choice) :
    SameView r w (w.exec x ch).1 := by
  rcases World.exec_fst w x ch with h | h
  · rw [h]
    exact .refl r w
  rcases hp.live.write hc h with h' | h' | ⟨hs, -, -⟩
  · rw [h']
    exact .refl r w
  · rw [h']
    exact ⟨Store.get_update_of_ne hr, fun C ns => Store.getAWSClusterByName_update hB C ns⟩
  · exact ⟨by rw [hs], fun C ns => by rw [hs]⟩

end AWSMachineTemplateReconciler

namespace Sys

open AWSMachineTemplateReconciler

variable {cfg : AWSMachineTemplateReconciler} {s s' : Sys} {req req' : NamespacedName} {A B : Obj}
  {role role' : RoleType} {C C' : String}

/-- `s'` holds the run of `req` that `s` holds, and looks alike to it. -/
structure Mirrors (req : NamespacedName) (s s' : Sys) : Prop where
  view : SameView (req.ref .awsMachineTemplate) s.world s'.world
  run : s'.templateRuns req = s.templateRuns req

theorem Mirrors.refl (req : NamespacedName) (s : Sys) : Mirrors req s s := ⟨.refl _ _, rfl⟩

theorem Mirrors.own (h : NormalRun cfg s req A role C) (hm : Mirrors req s s') :
    Mirrors req (templateAlone cfg req 1 s) (templateAlone cfg req 1 s') := by
  rcases step_template cfg s req .ok with ⟨t, r, hrun, -⟩ | ⟨pc, c, hpc, -, hc, -⟩
  · obtain ⟨hr₁, hw₁⟩ := @step_template_returned cfg _ _ _ _ hrun
    obtain ⟨hr₂, hw₂⟩ := @step_template_returned cfg _ _ _ _ (hm.run.trans hrun)
    exact ⟨by rw [hw₁, hw₂]; exact hm.view, hr₂.trans hr₁.symm⟩
  · have hn : pc.Normal cfg A role C s.world := holds_of_run hpc h.run trivial
    obtain ⟨hr₁, hw₁⟩ := @step_template_ok cfg _ _ _ _ hpc hc
    obtain ⟨hr₂, hw₂⟩ := @step_template_ok cfg s' req pc c (by rw [hm.run]; exact hpc) hc
    obtain ⟨hans, hv⟩ := hn.exec_sameView h.ref hc hm.view
    show Mirrors req (s.step cfg (.template req .ok)) (s'.step cfg (.template req .ok))
    exact ⟨by rw [hw₁, hw₂]; exact hv, by rw [hr₁, hr₂, hans]⟩

/-- A step of the reconcile of another request on its normal path, answered or failing, is
matched by no step: it keeps the run of `req` and the view of its template. -/
theorem Mirrors.other (h' : NormalRun cfg s req' B role' C') (hne : req' ≠ req) (hm : Mirrors req s s')
    (ch : Choice) : Mirrors req (s.step cfg (.template req' ch)) s' := by
  have hrun : (s.step cfg (.template req' ch)).templateRuns req = s.templateRuns req :=
    templateRuns_template_of_ne ch (Ne.symm hne)
  refine ⟨?_, hm.run.trans hrun.symm⟩
  rcases step_template cfg s req' ch with ⟨-, -, -, hs⟩ | ⟨pc, c, hpc, -, hc, hs⟩
  · rw [hs]
    exact hm.view
  · have hn : pc.Normal cfg B role' C' s.world := holds_of_run hpc h'.run trivial
    have hr : req.ref .awsMachineTemplate ≠ B.ref := fun e =>
      hne (NamespacedName.ref_inj (e.trans h'.ref)).symm
    rw [hs]
    exact (hn.exec_sameView_other hc (by rw [h'.ref]; simp [NamespacedName.ref]) hr ch).symm.trans hm.view

/-- Over any interleaving of the normal reconciles of `reqs` in which the calls of `req` go
through, the system mirrors the reconcile of `req` run alone for as many calls. -/
theorem mirrors_run {reqs : List NamespacedName} (hreq : req ∈ reqs) :
    ∀ (as : List Action) (s s' : Sys),
      (∀ a ∈ as, ∃ r ∈ reqs, ∃ ch, a = .template r ch ∧ (r = req → ch = .ok)) →
      (∀ r ∈ reqs, ∃ A role C, NormalRun cfg s r A role C) → Mirrors req s s' →
      Mirrors req (s.run cfg as) (templateAlone cfg req (as.filter (Action.ofTemplate req)).length s')
  | [], _, _, _, _, hm => hm
  | a :: as, s, s', has, h, hm => by
    obtain ⟨r, hr, ch, rfl, hok⟩ := has a (List.mem_cons_self a as)
    have has' := fun b hb => has b (List.mem_cons_of_mem _ hb)
    have h' := normalRun_step h hr ch
    by_cases he : r = req
    · subst r
      obtain rfl := hok rfl
      obtain ⟨A, role, C, hA⟩ := h req hr
      rw [List.filter_cons_of_pos (by simp [Action.ofTemplate]), List.length_cons, Nat.add_comm,
        templateAlone_add]
      exact mirrors_run hreq as _ _ has' h' (hm.own hA)
    · rw [List.filter_cons_of_neg (by simp [Action.ofTemplate, he])]
      obtain ⟨B, role', C', hB⟩ := h r hr
      exact mirrors_run hreq as _ _ has' h' (hm.other hB he ch)

/-- Reconciles of live templates that pass the checks run side by side, their calls interleaved in
any order, any call of the others failing. The reconcile of `req` among them stands exactly where
it stands run alone for as many calls, and reads the same template: the others never change an
answer it gets. -/
theorem reconcile_runs_as_alone (reqs : List NamespacedName)
    (hidle : ∀ r ∈ reqs, s.templateRuns r = none)
    (hready : ∀ r ∈ reqs, ∃ A role C, s.store.get (r.ref .awsMachineTemplate) = some A ∧
      NormalReady A role C)
    (as : List Action) (has : ∀ a ∈ as, ∃ r ∈ reqs, ∃ ch, a = .template r ch ∧ (r = req → ch = .ok))
    (hreq : req ∈ reqs) :
    (s.run cfg as).templateRuns req =
        (templateAlone cfg req (as.filter (Action.ofTemplate req)).length s).templateRuns req ∧
      (s.run cfg as).store.get (req.ref .awsMachineTemplate) =
        (templateAlone cfg req (as.filter (Action.ofTemplate req)).length s).store.get
          (req.ref .awsMachineTemplate) := by
  have hm := @mirrors_run cfg req reqs hreq as s s has (normalRun_init hidle hready) (Mirrors.refl req s)
  exact ⟨hm.run.symm, hm.view.get.symm⟩

/-- The rollover race of `rolloverLive`, the calls of the new template failing after their
effect. -/
def rolloverRaceFailing : List Action :=
  (List.replicate 12 [.template ⟨"ns", "cp-old"⟩ .ok, .template ⟨"ns", "cp-new"⟩ (.fail true)]).flatten

theorem rolloverLive_ready : ∀ r ∈ [(⟨"ns", "cp-old"⟩ : NamespacedName), ⟨"ns", "cp-new"⟩],
    ∃ A role C, (init rolloverLive).store.get (r.ref .awsMachineTemplate) = some A ∧
      NormalReady A role C := by
  intro r hr
  simp only [List.mem_cons, List.mem_singleton, List.not_mem_nil, or_false] at hr
  rcases hr with rfl | rfl
  · exact ⟨rolloverOldLive, .controlPlaneRole, "c", by decide,
      ⟨by decide, by decide, by decide, by decide, by decide⟩⟩
  · exact ⟨rolloverNewLive, .controlPlaneRole, "c", by decide,
      ⟨by decide, by decide, by decide, by decide, by decide⟩⟩

theorem rolloverRaceFailing_actions : ∀ a ∈ rolloverRaceFailing,
    ∃ r ∈ [(⟨"ns", "cp-old"⟩ : NamespacedName), ⟨"ns", "cp-new"⟩], ∃ ch,
      a = .template r ch ∧ (r = ⟨"ns", "cp-old"⟩ → ch = .ok) := by
  intro a ha
  obtain ⟨l, hl, ha⟩ := List.mem_flatten.1 ha
  rw [(List.mem_replicate.1 hl).2] at ha
  simp only [List.mem_cons, List.mem_singleton, List.not_mem_nil, or_false] at ha
  rcases ha with rfl | rfl
  · exact ⟨_, by simp, _, rfl, fun _ => rfl⟩
  · exact ⟨_, by simp, _, rfl, by decide⟩

theorem rollover_old_runs_as_alone :
    ((init rolloverLive).run ⟨true⟩ rolloverRaceFailing).templateRuns ⟨"ns", "cp-old"⟩ =
        (templateAlone ⟨true⟩ ⟨"ns", "cp-old"⟩
          (rolloverRaceFailing.filter (Action.ofTemplate ⟨"ns", "cp-old"⟩)).length
          (init rolloverLive)).templateRuns ⟨"ns", "cp-old"⟩ ∧
      ((init rolloverLive).run ⟨true⟩ rolloverRaceFailing).store.get
          (NamespacedName.ref ⟨"ns", "cp-old"⟩ .awsMachineTemplate) =
        (templateAlone ⟨true⟩ ⟨"ns", "cp-old"⟩
          (rolloverRaceFailing.filter (Action.ofTemplate ⟨"ns", "cp-old"⟩)).length
          (init rolloverLive)).store.get (NamespacedName.ref ⟨"ns", "cp-old"⟩ .awsMachineTemplate) :=
  reconcile_runs_as_alone _ (fun _ _ => rfl) rolloverLive_ready rolloverRaceFailing
    rolloverRaceFailing_actions (by simp)

/-- In particular the reconcile of a template that finds its cluster, among such reconciles, has
returned nil with its template marked once it has made the calls it makes alone, whatever the
others did meanwhile. -/
theorem concurrent_normal_reconcile_completes (reqs : List NamespacedName)
    (hidle : ∀ r ∈ reqs, s.templateRuns r = none)
    (hready : ∀ r ∈ reqs, ∃ A role C, s.store.get (r.ref .awsMachineTemplate) = some A ∧
      NormalReady A role C)
    (as : List Action) (has : ∀ a ∈ as, ∃ r ∈ reqs, ∃ ch, a = .template r ch ∧ (r = req → ch = .ok))
    (hreq : req ∈ reqs) {aws : Obj} (hA : s.store.get (req.ref .awsMachineTemplate) = some A)
    (hAr : NormalReady A role C) (haws : s.store.getAWSClusterByName C req.ns = .ok aws)
    (hn : (as.filter (Action.ofTemplate req)).length = normalCalls cfg ⟨A, role, C⟩) :
    (s.run cfg as).templateRuns req = some (.returned (some A) (⟨false⟩, none)) ∧
      (s.run cfg as).store.get (req.ref .awsMachineTemplate) = some (marked A) := by
  have hm := @mirrors_run cfg req reqs hreq as s s has (normalRun_init hidle hready) (Mirrors.refl req s)
  rw [hn] at hm
  obtain ⟨hq, hw⟩ := templateAlone_returned
    (alone_normal hA hAr.watch hAr.labelled hAr.cluster hAr.profile hAr.live haws)
    (.inr ⟨hidle req hreq, rfl⟩)
  refine ⟨hm.run.symm.trans hq, hm.view.get.symm.trans ?_⟩
  rw [hw]
  exact get_normalWorld hA hAr.live

theorem rollover_old_completes_under_failures :
    ((init rolloverLive).run ⟨true⟩ rolloverRaceFailing).templateRuns ⟨"ns", "cp-old"⟩ =
        some (.returned (some rolloverOldLive) (⟨false⟩, none)) ∧
      ((init rolloverLive).run ⟨true⟩ rolloverRaceFailing).store.get
          (NamespacedName.ref ⟨"ns", "cp-old"⟩ .awsMachineTemplate) = some (marked rolloverOldLive) :=
  concurrent_normal_reconcile_completes _ (fun _ _ => rfl) rolloverLive_ready rolloverRaceFailing
    rolloverRaceFailing_actions (by simp) (by decide)
    (show NormalReady rolloverOldLive .controlPlaneRole "c" from
      ⟨by decide, by decide, by decide, by decide, by decide⟩)
    (show (init rolloverLive).store.getAWSClusterByName "c" "ns" =
      .ok ⟨0, "ns", "cluster", .awsCluster, ⟨some "c", none, none⟩, false, []⟩ from rfl) (by decide)

end Sys

end CapaIam

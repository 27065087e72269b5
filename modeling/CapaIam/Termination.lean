import CapaIam.ManagedControlPlane

/-!
# Every reconcile returns

`Reconcile` makes a bounded number of calls whatever they answer: the only loop is the one of
`removeFinalizer`, which stops after `maxPatchRetries` attempts. `answer` runs a reconcile
against a list of answers, one per call, as `Sys.step` does for the calls of one request.
`Pc.rank` bounds the calls left: every answer lowers it, and only a returned reconcile has rank
`0` (`answer_done`). A template reconcile returns within 37 calls: the read, the cluster, the
session, the guard, both deletes, and three `removeFinalizer`s of five attempts and four refetches
each, with the `ConfigMap`'s read between the last two. A control-plane reconcile returns within
10.

The longest path is the deletion branch with every `removeFinalizer` refused `Invalid` four times
and let through at the fifth attempt (`longestAnswers`): it makes all 37 calls.
-/

namespace CapaIam

/-- The reconcile at `p` after the answers `rs` to its calls in turn, for the transition `next`;
a reconcile that is `done` makes no more calls. -/
def answer {P : Type} (next : P → Resp → P) (done : P → Bool) : P → List Resp → P
  | p, [] => p
  | p, resp :: rs => if done p then p else answer next done (next p resp) rs

/-- A rank that every answer lowers and that stays positive until the reconcile is done bounds
its calls: after `rank p` answers it is done. -/
theorem answer_done {P : Type} {next : P → Resp → P} {done : P → Bool} (rank : P → Nat)
    (hpos : ∀ p, done p = false → 0 < rank p)
    (hnext : ∀ p resp, done p = false → rank (next p resp) < rank p) :
    ∀ p rs, rank p ≤ rs.length → done (answer next done p rs) = true
  | p, [], hr => by
    cases hd : done p
    · exact absurd hr (Nat.not_le.2 (hpos p hd))
    · exact hd
  | p, resp :: rs, hr => by
    have hlen : rs.length + 1 = (resp :: rs).length := rfl
    cases hd : done p
    · have := hnext p resp hd
      simp only [answer, hd, Bool.false_eq_true, if_false]
      exact answer_done rank hpos hnext _ rs (by omega)
    · simp only [answer, hd, if_true]

namespace AWSMachineTemplateReconciler

/-- The calls `reconcileDelete` makes after its `removeFinalizer` on `tg`, at most. -/
def Target.rest : Target → Nat
  | .awsCluster => 19
  | .awsMachineTemplate => 10
  | .configMap => 0

/-- At most the calls the reconcile at `p` still makes. -/
def Pc.rank : Pc → Nat
  | .get => 37
  | .getAWSCluster _ => 36
  | .remote _ next => next.rank + 1
  | .isRoleUsedElsewhere _ => 32
  | .deleteRole _ => 31
  | .deleteRolesForIRSA _ => 30
  | .getAWSClusterToRelease _ _ => 29
  | .removeFinalizer _ _ tg _ i => 2 * (maxPatchRetries - i) + 1 + tg.rest
  | .refetch _ _ tg _ i => 2 * (maxPatchRetries - (i + 1)) + 2 + tg.rest
  | .getConfigMap _ _ => 10
  | .addFinalizer _ => 7
  | .getAWSClusterNormal _ => 6
  | .reconcileRole _ => 5
  | .reconcileRolesForIRSA _ => 1
  | .returned _ _ => 0

def Pc.done : Pc → Bool
  | .returned _ _ => true
  | _ => false

variable {cfg : AWSMachineTemplateReconciler} {c : Ctx} {u : Bool} {p : Pc}

theorem Pc.done_eq_true (h : p.done = true) : ∃ t res, p = .returned t res := by
  cases p <;> first | exact ⟨_, _, rfl⟩ | cases h

theorem Pc.rank_pos (h : p.done = false) : 0 < p.rank := by
  cases p with
  | returned => cases h
  | remote => exact Nat.succ_pos _
  | _ => simp only [Pc.rank]; omega

@[simp] theorem Pc.rank_fail (p : Pc) (e : ErrKind) : (p.fail e).rank = 0 := rfl

theorem afterGet_rank (t : Obj) : (afterGet t).rank ≤ 36 := by
  unfold afterGet
  repeat' split
  all_goals simp [Pc.rank]

theorem session_rank : (session c).rank ≤ 35 := by
  simp only [session, Pc.rank]
  split_ifs <;> simp [Pc.rank]

theorem afterRemove_rank (tg : Target) : (afterRemove c u tg).rank ≤ tg.rest := by
  cases tg <;> simp only [afterRemove] <;> (try split) <;> simp [Pc.rank, Target.rest, maxPatchRetries]

theorem startRemove_rank {tg : Target} {obj : Obj} :
    (startRemove c u tg obj).rank ≤ 2 * (maxPatchRetries - 1) + 1 + tg.rest := by
  unfold startRemove
  split
  · exact Nat.le_refl _
  · exact (afterRemove_rank tg).trans (Nat.le_add_left _ _)

theorem afterReconcileRole_rank : (afterReconcileRole cfg c).rank ≤ 4 := by
  unfold afterReconcileRole
  split <;> simp [Pc.rank]

/-- Every answer lowers the rank of a reconcile that has not returned. -/
theorem Pc.rank_next (resp : Resp) (h : p.done = false) : (p.next cfg resp).rank < p.rank := by
  have hfail : ∀ e, (p.fail e).rank < p.rank := fun e => (rank_fail p e).symm ▸ rank_pos h
  cases p with
  | returned => cases h
  | remote r next =>
    cases resp with
    | error e => exact hfail e
    | ok => exact Nat.lt_succ_self _
  | get =>
    rcases resp with (_ | _ | _) | (t | _ | _)
    all_goals first | exact hfail _ | simp [Pc.next, Pc.rank]
    exact Nat.lt_of_le_of_lt (afterGet_rank t) (by decide)
  | getAWSCluster =>
    cases resp with
    | error e => exact hfail e
    | ok => exact Nat.lt_of_le_of_lt session_rank (by simp [Pc.rank])
  | getAWSClusterToRelease c u | getConfigMap c u =>
    rcases resp with (_ | _ | _) | (_ | _ | _)
    all_goals first
      | exact hfail _
      | exact Nat.lt_of_le_of_lt startRemove_rank (by simp [Pc.rank, Target.rest, maxPatchRetries])
      | simp [Pc.next, Pc.rank]
  | removeFinalizer c u tg obj i =>
    have := @afterRemove_rank c u tg
    rcases resp with (_ | _ | _) | _
    all_goals first
      | exact hfail _
      | (simp only [Pc.next]
         split <;> simp only [Pc.rank] <;> omega)
  | refetch c u tg obj i =>
    rcases resp with e | ((_ | _) | _ | _)
    all_goals first | exact hfail _ | (simp only [Pc.next, Pc.rank]; omega)
  | reconcileRole =>
    cases resp with
    | error e => exact hfail e
    | ok => exact Nat.lt_of_le_of_lt afterReconcileRole_rank (by simp [Pc.rank])
  | _ =>
    rcases resp with e | ((_ | _) | _ | _)
    all_goals first | exact hfail _ | (simp only [Pc.next]; split <;> simp [Pc.rank]) |
      simp [Pc.next, Pc.rank]

/-- `Reconcile` of an `AWSMachineTemplate` returns within 37 calls, whatever each call answers. -/
theorem returns_within_37_calls (cfg : AWSMachineTemplateReconciler) (rs : List Resp)
    (h : 37 ≤ rs.length) : ∃ t res, answer (Pc.next cfg) Pc.done .get rs = .returned t res :=
  Pc.done_eq_true (answer_done Pc.rank (fun _ => Pc.rank_pos) (fun _ resp => Pc.rank_next resp) .get rs h)

/-- A control-plane template being deleted, with the finalizer, and its cluster and
cluster-values `ConfigMap`, which still hold it. -/
def deletingTemplate : Obj :=
  ⟨1, "ns", "tmpl", .awsMachineTemplate "profile", ⟨some "c", some "capi", some "control-plane"⟩, true,
    [controlPlaneFinalizer]⟩

def heldCluster : Obj := ⟨0, "ns", "cluster", .awsCluster, ⟨some "c", none, none⟩, false, [controlPlaneFinalizer]⟩

def heldConfigMap : Obj :=
  ⟨2, "ns", "c-cluster-values", .configMap, ⟨none, none, none⟩, false, [controlPlaneFinalizer]⟩

/-- The answers to `removeFinalizer` on `o` when its first four attempts are refused `Invalid`
and each refetch reads `o` again: the fifth attempt goes through. -/
def refusedFourTimes (o : Obj) : List Resp :=
  (List.replicate 4 [.error .invalid, .ok (.obj o)]).flatten ++ [.ok .unit]

/-- The longest path of `Reconcile`: the deletion of `deletingTemplate` with `EnableRoute53Role`
set, the guard answering `false`, and all three `removeFinalizer`s retried to their last attempt. -/
def longestAnswers : List Resp :=
  [.ok (.obj deletingTemplate), .ok (.obj heldCluster), .ok .unit, .ok .unit, .ok .unit,
    .ok (.bool false), .ok .unit, .ok .unit, .ok (.obj heldCluster)] ++
    refusedFourTimes heldCluster ++ refusedFourTimes deletingTemplate ++ [.ok (.obj heldConfigMap)] ++
    refusedFourTimes heldConfigMap

theorem reconcile_returns_on_longest_path :
    37 ≤ longestAnswers.length ∧
      (∃ t res, answer (Pc.next ⟨true⟩) Pc.done .get longestAnswers = .returned t res) ∧
      answer (Pc.next ⟨true⟩) Pc.done .get longestAnswers = .returned (some deletingTemplate) (⟨false⟩, none) ∧
      (answer (Pc.next ⟨true⟩) Pc.done .get (longestAnswers.take 36)).done = false :=
  ⟨by decide, returns_within_37_calls ⟨true⟩ _ (by decide), by decide, by decide⟩

end AWSMachineTemplateReconciler

def eksControlPlane : Obj :=
  ⟨0, "ns", "eks", .awsManagedControlPlane (some "role"), ⟨some "c", some "capi", none⟩, false, []⟩

namespace AWSManagedControlPlaneReconciler

/-- At most the calls the reconcile at `p` still makes. -/
def Pc.rank : Pc → Nat
  | .get => 10
  | .remote _ next => next.rank + 1
  | .deleteRolesForIRSA _ => 2
  | .removeFinalizer _ => 1
  | .addFinalizer _ => 5
  | .reconcileRolesForIRSA _ => 1
  | .returned _ _ => 0

def Pc.done : Pc → Bool
  | .returned _ _ => true
  | _ => false

variable {p : Pc}

theorem Pc.done_eq_true (h : p.done = true) : ∃ a res, p = .returned a res := by
  cases p <;> first | exact ⟨_, _, rfl⟩ | cases h

theorem Pc.rank_pos (h : p.done = false) : 0 < p.rank := by
  cases p with
  | returned => cases h
  | remote => exact Nat.succ_pos _
  | _ => simp only [Pc.rank]; omega

theorem afterGet_rank (a : Obj) : (afterGet a).rank ≤ 9 := by
  unfold afterGet
  repeat' split
  all_goals simp [Pc.rank, reconcileIRSA]

/-- Every answer lowers the rank of a reconcile that has not returned. -/
theorem Pc.rank_next (resp : Resp) (h : p.done = false) : (p.next resp).rank < p.rank := by
  have hfail : ∀ e, (p.fail e).rank < p.rank := fun e => rank_pos h
  cases p with
  | returned => cases h
  | remote r next =>
    cases resp with
    | error e => exact hfail e
    | ok => exact Nat.lt_succ_self _
  | get =>
    rcases resp with (_ | _ | _) | (a | _ | _)
    all_goals first | exact hfail _ | simp [Pc.next, Pc.rank]
    exact Nat.lt_of_le_of_lt (afterGet_rank a) (by decide)
  | _ =>
    cases resp with
    | error e => exact hfail e
    | ok => simp only [Pc.next]; (try split) <;> simp [Pc.rank, reconcileIRSA]

/-- `Reconcile` of an `AWSManagedControlPlane` returns within 10 calls, whatever each call
answers. -/
theorem returns_within_10_calls (rs : List Resp) (h : 10 ≤ rs.length) :
    ∃ a res, answer Pc.next Pc.done .get rs = .returned a res :=
  Pc.done_eq_true (answer_done Pc.rank (fun _ => Pc.rank_pos) (fun _ resp => Pc.rank_next resp) .get rs h)

theorem control_plane_reconcile_returns_on_longest_path :
    10 ≤ (.ok (.obj eksControlPlane) :: List.replicate 9 (.ok .unit) : List Resp).length ∧
      (∃ a res, answer Pc.next Pc.done .get (.ok (.obj eksControlPlane) :: List.replicate 9 (.ok .unit)) =
        .returned a res) ∧
      answer Pc.next Pc.done .get (.ok (.obj eksControlPlane) :: List.replicate 9 (.ok .unit)) =
        .returned (some eksControlPlane) requeue ∧
      (answer Pc.next Pc.done .get (.ok (.obj eksControlPlane) :: List.replicate 8 (.ok .unit))).done = false :=
  ⟨by decide, returns_within_10_calls _ (by decide), by decide, by decide⟩

end AWSManagedControlPlaneReconciler

end CapaIam

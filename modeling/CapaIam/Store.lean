import CapaIam.Key
import Mathlib.Data.List.Nodup

/-!
# The object store

The API server's objects that the controllers read and write: `AWSMachineTemplate`s,
`AWSCluster`s, the cluster-values `ConfigMap`s and `AWSManagedControlPlane`s. An object is named by
its kind, namespace and name (`ObjRef`); its `uid` tells apart two objects that had one name at
different times. A `Store` holds at most one object per name (`nodup`) and the next fresh uid.

No two objects share a uid (`uid_nodup`). A write (`Edit`) replaces the finalizers or the labels of the object of a name, or sets its
`DeletionTimestamp`; it keeps the name, the uid and the spec. `Store.update` applies it and then
removes the object if it is being deleted and has no finalizer left, as the API server does.
-/

namespace CapaIam

inductive Kind
  | awsMachineTemplate
  | awsCluster
  | configMap
  | awsManagedControlPlane
  deriving DecidableEq, Repr

/-- The fields of an object's spec that a reconcile reads. -/
inductive Spec
  /-- `.Spec.Template.Spec.IAMInstanceProfile`. -/
  | awsMachineTemplate (iamInstanceProfile : String)
  | awsCluster
  | configMap
  /-- `.Spec.RoleName`. -/
  | awsManagedControlPlane (roleName : Option String)
  deriving DecidableEq, Repr

def Spec.kind : Spec → Kind
  | .awsMachineTemplate _ => .awsMachineTemplate
  | .awsCluster => .awsCluster
  | .configMap => .configMap
  | .awsManagedControlPlane _ => .awsManagedControlPlane

/-- A kind with a `client.ObjectKey`. -/
structure ObjRef where
  kind : Kind
  ns : String
  name : String
  deriving DecidableEq, Repr

/-- An object as stored: `uid`, namespace, name, the spec fields read, labels, whether its
`DeletionTimestamp` is set, and its finalizers. -/
structure Obj where
  uid : Nat
  ns : String
  name : String
  spec : Spec
  labels : Labels
  deletionTimestamp : Bool
  finalizers : List String
  deriving DecidableEq, Repr

namespace Obj

def ref (o : Obj) : ObjRef := ⟨o.spec.kind, o.ns, o.name⟩

/-- The API server removes an object that is being deleted once no finalizer is left. -/
def collected (o : Obj) : Bool := o.deletionTimestamp && o.finalizers.isEmpty

end Obj

/-- A write to the object of a name. -/
inductive Edit
  | finalizers (fs : List String)
  | labels (l : Labels)
  | delete
  deriving DecidableEq, Repr

namespace Edit

def apply : Edit → Obj → Obj
  | .finalizers fs, o => { o with finalizers := fs }
  | .labels l, o => { o with labels := l }
  | .delete, o => { o with deletionTimestamp := true }

@[simp] theorem ref_apply (e : Edit) (o : Obj) : (e.apply o).ref = o.ref := by
  cases e <;> rfl

@[simp] theorem uid_apply (e : Edit) (o : Obj) : (e.apply o).uid = o.uid := by
  cases e <;> rfl

@[simp] theorem spec_apply (e : Edit) (o : Obj) : (e.apply o).spec = o.spec := by
  cases e <;> rfl

end Edit

structure Store where
  objects : List Obj
  nextUid : Nat
  nodup : (objects.map Obj.ref).Nodup
  uid_nodup : (objects.map Obj.uid).Nodup
  uid_lt : ∀ o ∈ objects, o.uid < nextUid

namespace Store

/-- `client.Get`: the object of a name. -/
def get (s : Store) (r : ObjRef) : Option Obj := s.objects.find? (·.ref == r)

/-- The object named `r` after the write `e`: the edited object unless it is collected. -/
def updateObjects (objects : List Obj) (r : ObjRef) (e : Edit) : List Obj :=
  (objects.map fun o => if o.ref = r then e.apply o else o).filter fun o => !(o.ref == r && o.collected)

theorem map_ref_updateMap (objects : List Obj) (r : ObjRef) (e : Edit) :
    (objects.map fun o => if o.ref = r then e.apply o else o).map Obj.ref = objects.map Obj.ref := by
  simp only [List.map_map]
  exact List.map_congr_left fun o _ => by by_cases h : o.ref = r <;> simp [h]

theorem map_uid_updateMap (objects : List Obj) (r : ObjRef) (e : Edit) :
    (objects.map fun o => if o.ref = r then e.apply o else o).map Obj.uid = objects.map Obj.uid := by
  simp only [List.map_map]
  exact List.map_congr_left fun o _ => by by_cases h : o.ref = r <;> simp [h]

/-- Apply the write `e` to the object named `r`, if any. -/
def update (s : Store) (r : ObjRef) (e : Edit) : Store where
  objects := updateObjects s.objects r e
  nextUid := s.nextUid
  nodup := ((List.filter_sublist _).map _).nodup (by rw [map_ref_updateMap]; exact s.nodup)
  uid_nodup := ((List.filter_sublist _).map _).nodup (by rw [map_uid_updateMap]; exact s.uid_nodup)
  uid_lt o ho := by
    obtain ⟨⟨o₀, h₀, rfl⟩, -⟩ := List.mem_filter.1 ho |>.imp List.mem_map.1 id
    split <;> simpa using s.uid_lt o₀ h₀

/-- `client.Create`: a new object named as `o`, with a fresh uid and no deletion timestamp, if
the name is free. -/
def create (s : Store) (o : Obj) : Option Store :=
  if h : s.get o.ref = none then
    some
      { objects := { o with uid := s.nextUid, deletionTimestamp := false } :: s.objects
        nextUid := s.nextUid + 1
        nodup := by
          refine List.nodup_cons.2 ⟨fun hm => ?_, s.nodup⟩
          obtain ⟨o', ho', hr⟩ := List.mem_map.1 hm
          exact absurd h (by simp [get, List.find?_eq_none]; exact ⟨o', ho', hr⟩)
        uid_nodup := by
          refine List.nodup_cons.2 ⟨fun hm => ?_, s.uid_nodup⟩
          obtain ⟨o', ho', hu⟩ := List.mem_map.1 hm
          exact absurd (s.uid_lt o' ho') (by simp [hu])
        uid_lt := by
          intro o' ho'
          rcases List.mem_cons.1 ho' with rfl | ho'
          · simp
          · exact Nat.lt_succ_of_lt (s.uid_lt o' ho') }
  else none

variable {s : Store} {r r' : ObjRef} {o o' : Obj} {e : Edit}

theorem get_eq_some : s.get r = some o ↔ o ∈ s.objects ∧ o.ref = r := by
  constructor
  · intro h
    exact ⟨List.mem_of_find?_eq_some h, by simpa using List.find?_some h⟩
  · rintro ⟨ho, rfl⟩
    cases h : s.get o.ref with
    | none => simp [get, List.find?_eq_none] at h; exact absurd rfl (h o ho)
    | some o' =>
      have ho' := List.mem_of_find?_eq_some h
      have hr : o'.ref = o.ref := by simpa using List.find?_some h
      rw [List.inj_on_of_nodup_map s.nodup ho' ho hr]

theorem mem_of_get (h : s.get r = some o) : o ∈ s.objects := (get_eq_some.1 h).1

theorem ref_of_get (h : s.get r = some o) : o.ref = r := (get_eq_some.1 h).2

theorem get_ref (h : o ∈ s.objects) : s.get o.ref = some o := get_eq_some.2 ⟨h, rfl⟩

theorem eq_of_mem_of_ref_eq (ho : o ∈ s.objects) (ho' : o' ∈ s.objects) (h : o.ref = o'.ref) :
    o = o' :=
  List.inj_on_of_nodup_map s.nodup ho ho' h

theorem mem_update :
    o ∈ (s.update r e).objects ↔
      (o.ref ≠ r ∧ o ∈ s.objects) ∨ (∃ o₀ ∈ s.objects, o₀.ref = r ∧ e.apply o₀ = o ∧ !o.collected) := by
  simp only [update, updateObjects, List.mem_filter, List.mem_map]
  constructor
  · rintro ⟨⟨o₀, h₀, rfl⟩, hc⟩
    by_cases h : o₀.ref = r
    · exact .inr ⟨o₀, h₀, h, by simp [h], by simpa [h] using hc⟩
    · exact .inl ⟨by simp [h], by simp [h, h₀]⟩
  · rintro (⟨hr, ho⟩ | ⟨o₀, h₀, hr, rfl, hc⟩)
    · exact ⟨⟨o, ho, by simp [hr]⟩, by simp [hr]⟩
    · exact ⟨⟨o₀, h₀, by simp [hr]⟩, by simp_all⟩

theorem mem_update_of_ne (hr : o.ref ≠ r) : o ∈ (s.update r e).objects ↔ o ∈ s.objects := by
  rw [mem_update]
  constructor
  · rintro (⟨-, ho⟩ | ⟨o₀, -, hr₀, rfl, -⟩)
    · exact ho
    · simp [hr₀] at hr
  · exact fun ho => .inl ⟨hr, ho⟩

theorem mem_update_cases (h : o' ∈ (s.update r e).objects) :
    (o'.ref ≠ r ∧ o' ∈ s.objects) ∨ ∃ o ∈ s.objects, o.ref = r ∧ o' = e.apply o := by
  rcases mem_update.1 h with h | ⟨o₀, h₀, hr, rfl, -⟩
  · exact .inl h
  · exact .inr ⟨o₀, h₀, hr, rfl⟩

theorem update_of_mem (h : o ∈ s.objects) :
    (o.ref ≠ r ∧ o ∈ (s.update r e).objects) ∨
      (o.ref = r ∧ (e.apply o ∈ (s.update r e).objects ∨ (e.apply o).collected = true)) := by
  by_cases hr : o.ref = r
  · refine .inr ⟨hr, ?_⟩
    cases hc : (e.apply o).collected
    · exact .inl (mem_update.2 (.inr ⟨o, h, hr, rfl, by simp [hc]⟩))
    · exact .inr rfl
  · exact .inl ⟨hr, (mem_update_of_ne hr).2 h⟩

theorem finalizers_of_mem_update {fs : List String} (ho : o' ∈ (s.update r (.finalizers fs)).objects)
    (hr : o'.ref = r) : o'.finalizers = fs := by
  rcases mem_update.1 ho with ⟨hne, -⟩ | ⟨o₀, -, -, rfl, -⟩
  · exact absurd hr hne
  · rfl

theorem mem_create {s' : Store} (h : s.create o = some s') :
    o' ∈ s'.objects ↔ o' = { o with uid := s.nextUid, deletionTimestamp := false } ∨ o' ∈ s.objects := by
  unfold create at h
  split at h
  · cases h; exact List.mem_cons
  · cases h

theorem get_create_none {s' : Store} (h : s.create o = some s') : s.get o.ref = none := by
  unfold create at h
  split at h
  · assumption
  · cases h

@[simp] theorem nextUid_update : (s.update r e).nextUid = s.nextUid := rfl

theorem nextUid_create {s' : Store} (h : s.create o = some s') : s'.nextUid = s.nextUid + 1 := by
  unfold create at h
  split at h
  · cases h; rfl
  · cases h

end Store

end CapaIam

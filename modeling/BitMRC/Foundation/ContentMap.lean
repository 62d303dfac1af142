import Mathlib.Data.List.Nodup
import Mathlib.Data.Finset.Card

/-!
# Maps keyed by content

The abstract counterpart of a table that stores each content once, whatever hash
it came under.  The contents are kept in the order in which they first came, so
that a search by any property answers with the oldest content that has it.
-/

namespace BitMRC

universe u

/-- Contents in the order in which they first came, each of them once. -/
structure ContentMap (α : Type u) where
  contents : List α
  once : contents.Nodup

namespace ContentMap

variable {α : Type u}

def empty : ContentMap α where
  contents := []
  once := List.nodup_nil

/-- A content that is not there yet, behind the others. -/
def append (self : ContentMap α) (info : α) (fresh : info ∉ self.contents) : ContentMap α where
  contents := self.contents ++ [info]
  once := self.once.append (List.nodup_singleton info) (List.disjoint_singleton.mpr fresh)

variable [DecidableEq α]

def insert (self : ContentMap α) (info : α) : ContentMap α :=
  if stored : info ∈ self.contents then self else self.append info stored

/-- One insertion after the other. -/
def insertAll (self : ContentMap α) (infos : List α) : ContentMap α := infos.foldl insert self

/-! ## What is stored -/

theorem insert_of_mem {self : ContentMap α} {info : α} (stored : info ∈ self.contents) :
    self.insert info = self := by
  simp [insert, stored]

theorem insert_of_not_mem {self : ContentMap α} {info : α} (fresh : info ∉ self.contents) :
    (self.insert info).contents = self.contents ++ [info] := by
  simp [insert, fresh, append]

@[simp] theorem mem_insert {self : ContentMap α} {info other : α} :
    other ∈ (self.insert info).contents ↔ other ∈ self.contents ∨ other = info := by
  by_cases stored : info ∈ self.contents
  · rw [insert_of_mem stored]
    constructor
    · exact .inl
    · rintro (earlier | rfl)
      · exact earlier
      · exact stored
  · simp [insert_of_not_mem stored]

theorem mem_insertAll {self : ContentMap α} {infos : List α} {other : α} :
    other ∈ (self.insertAll infos).contents ↔ other ∈ self.contents ∨ other ∈ infos := by
  induction infos generalizing self with
  | nil => simp [insertAll]
  | cons info infos ih =>
      rw [insertAll, List.foldl_cons, ← insertAll, ih, mem_insert, List.mem_cons, or_assoc]

/-- A search meets the contents in the order in which they came. -/
theorem find?_insert (self : ContentMap α) (info : α) (wanted : α → Bool) :
    (self.insert info).contents.find? wanted = (self.contents ++ [info]).find? wanted := by
  by_cases stored : info ∈ self.contents
  · rw [insert_of_mem stored, List.find?_append]
    -- a duplicate is found only when its first copy is
    cases found : self.contents.find? wanted with
    | some first => rfl
    | none => simp [List.find?_eq_none.mp found info stored]
  · rw [insert_of_not_mem stored]

theorem find?_insertAll (self : ContentMap α) (infos : List α) (wanted : α → Bool) :
    (self.insertAll infos).contents.find? wanted = (self.contents ++ infos).find? wanted := by
  induction infos generalizing self with
  | nil => simp [insertAll]
  | cons info infos ih =>
      rw [insertAll, List.foldl_cons, ← insertAll, ih, List.find?_append, find?_insert,
        ← List.find?_append, List.append_assoc, List.singleton_append]

/-- Of the contents inserted into an empty map each is stored once. -/
theorem length_insertAll (infos : List α) :
    ((empty : ContentMap α).insertAll infos).contents.length = infos.toFinset.card := by
  rw [← List.toFinset_card_of_nodup ((empty : ContentMap α).insertAll infos).once]
  congr 1
  ext other
  simp [mem_insertAll, empty]

end ContentMap

end BitMRC

import BitMRC.Foundation.ContentMap
import BitMRC.Utils.HashTable

/-!
# `hash_table` as a map keyed by content

Contents inserted under hashes that are a function of them make a `ContentMap`:
each chain holds, in the order of the map, the contents whose hash selects it.
This holds whatever function into the chains `hash_f` is.
-/

namespace BitMRC.HashTable

variable {T : Type} {hash_f : UString → Fin dim} {H : T → UString}

/-! ## Hashes of at least four bytes

Whatever the buffer of `hash_f` holds, they select the same chain. -/

theorem insert_eq_of_four_le [DecidableEq T] (self : HashTable T) (c : UString) (info : T)
    {hash : UString} (long : 4 ≤ hash.length) :
    self.insert c info hash = self.insertBy (hashF []) info hash := by
  simp only [insert, insertBy, hashF_of_four_le long c []]

theorem present_eq_of_four_le (self : HashTable T) (c : UString) {hash : UString}
    (long : 4 ≤ hash.length) : self.present c hash = self.presentBy (hashF []) hash := by
  simp only [present, presentBy, hashF_of_four_le long c []]

theorem searchByHash_eq_of_four_le (self : HashTable T) (default : T) (c : UString)
    {hash : UString} (long : 4 ≤ hash.length) :
    self.searchByHash default c hash = self.searchBy (hashF []) default hash := by
  simp only [searchByHash, searchBy, hashF_of_four_le long c []]

/-! ## The chains hold a map -/

/-- The node of a content under its own hash. -/
def node (H : T → UString) (info : T) : LinkedNode T := ⟨H info, info⟩

/-- The chains are the contents of the map, sorted by the chain of their hash. -/
def Holds (hash_f : UString → Fin dim) (H : T → UString) (self : HashTable T)
    (map : ContentMap T) : Prop :=
  ∀ i, self.table i = (map.contents.filter fun info => hash_f (H info) = i).map (node H)

theorem holds_empty : Holds hash_f H empty ContentMap.empty := fun _ => rfl

namespace Holds

variable {self : HashTable T} {map : ContentMap T}

theorem mem_table (holds : Holds hash_f H self map) {i : Fin dim} {found : LinkedNode T} :
    found ∈ self.table i ↔
      ∃ info ∈ map.contents, hash_f (H info) = i ∧ node H info = found := by
  rw [holds i]
  simp [and_assoc]

/-- Every node lies in the chain of its hash. -/
theorem chain (holds : Holds hash_f H self map) {i : Fin dim} {found : LinkedNode T}
    (member : found ∈ self.table i) : hash_f found.hash = i ∧ found.hash = H found.info := by
  obtain ⟨info, _, chain, rfl⟩ := holds.mem_table.mp member
  exact ⟨chain, rfl⟩

/-- The chain of a hash is searched for a content where only this content can be. -/
theorem exists_mem_chain (holds : Holds hash_f H self map) (info : T) :
    (∃ found ∈ self.table (hash_f (H info)), found.info = info) ↔ info ∈ map.contents := by
  constructor
  · rintro ⟨found, member, rfl⟩
    obtain ⟨info, stored, _, rfl⟩ := holds.mem_table.mp member
    exact stored
  · intro stored
    exact ⟨node H info, holds.mem_table.mpr ⟨info, stored, rfl, rfl⟩, rfl⟩

/-- The nodes of the chain of a hash that carry it. -/
theorem find?_chain (holds : Holds hash_f H self map) (hash : UString) :
    (self.table (hash_f hash)).find? (·.hash = hash) =
      (map.contents.find? fun info => H info = hash).map (node H) := by
  rw [holds, List.find?_map, List.find?_filter]
  congr 2
  funext info
  by_cases same : H info = hash
  · simp [node, same]
  · simp [node, same]

theorem presentBy_iff (holds : Holds hash_f H self map) (hash : UString) :
    self.presentBy hash_f hash = true ↔ ∃ info ∈ map.contents, H info = hash := by
  rw [presentBy, List.any_eq_true, ← List.find?_isSome, holds.find?_chain, Option.isSome_map,
    List.find?_isSome]
  simp

theorem searchBy_eq (holds : Holds hash_f H self map) (default : T) (hash : UString) :
    self.searchBy hash_f default hash =
      (map.contents.find? fun info => H info = hash).getD default := by
  rw [searchBy, holds.find?_chain]
  cases map.contents.find? fun info => H info = hash <;> rfl

/-- Chain by chain the same nodes as in the order of the map. -/
theorem toList_perm (holds : Holds hash_f H self map) :
    self.toList.Perm (map.contents.map (node H)) := by
  have injective : Function.Injective (node H) := fun a b equal => congrArg LinkedNode.info equal
  have once : (map.contents.map (node H)).Nodup := map.once.map injective
  have listed : self.toList.Nodup := by
    rw [toList, List.nodup_flatMap]
    constructor
    · intro i _
      rw [holds i]
      exact (map.once.filter _).map injective
    · refine (List.nodup_finRange dim).imp ?_
      intro i other different found here there
      exact different ((holds.chain here).1.symm.trans (holds.chain there).1)
  rw [List.perm_ext_iff_of_nodup listed once]
  intro found
  simp only [toList, List.mem_flatMap, List.mem_finRange, true_and, holds.mem_table,
    List.mem_map]
  constructor
  · rintro ⟨i, info, stored, _, equal⟩
    exact ⟨info, stored, equal⟩
  · rintro ⟨info, stored, equal⟩
    exact ⟨hash_f (H info), info, stored, rfl, equal⟩

section Insert

variable [DecidableEq T]

/-- `insert` answers 0 to a content that is stored, and to no other. -/
theorem insertBy_fst_eq_zero_iff (holds : Holds hash_f H self map) (info : T) :
    (self.insertBy hash_f info (H info)).1 = 0 ↔ info ∈ map.contents := by
  rw [← holds.exists_mem_chain info]
  rcases insertBy_cases self info (H info) hash_f with ⟨empty, result⟩ | ⟨present, result⟩ |
    ⟨_, absent, result⟩
  · simp [result, empty]
  · simpa [result] using present
  · simpa [result] using absent

theorem insertBy (holds : Holds hash_f H self map) (info : T) :
    Holds hash_f H (self.insertBy hash_f info (H info)).2 (map.insert info) := by
  by_cases stored : info ∈ map.contents
  · have present := (holds.exists_mem_chain info).mpr stored
    rw [ContentMap.insert_of_mem stored]
    rcases insertBy_cases self info (H info) hash_f with ⟨empty, _⟩ | ⟨_, result⟩ |
      ⟨_, absent, _⟩
    · obtain ⟨found, member, _⟩ := present
      rw [empty] at member
      exact absurd member List.not_mem_nil
    · rw [result]
      exact holds
    · obtain ⟨found, member, equal⟩ := present
      exact absurd equal (absent found member)
  · have absent : ¬ ∃ found ∈ self.table (hash_f (H info)), found.info = info :=
      fun present => stored ((holds.exists_mem_chain info).mp present)
    have appended : (self.insertBy hash_f info (H info)).2 =
        self.append (hash_f (H info)) (node H info) := by
      rcases insertBy_cases self info (H info) hash_f with ⟨_, result⟩ | ⟨present, _⟩ |
        ⟨_, _, result⟩
      · rw [result]
        rfl
      · exact absurd present absent
      · rw [result]
        rfl
    intro i
    rw [appended, ContentMap.insert_of_not_mem stored]
    by_cases same : hash_f (H info) = i
    · subst same
      simp [append_table_self, holds (hash_f (H info))]
    · simp [append_table_of_ne self _ (Ne.symm same), holds i, same]

end Insert

end Holds

/-- One content in an empty table. -/
theorem toList_insert_empty [DecidableEq T] (c : UString) (info : T) (hash : UString) :
    ((empty : HashTable T).insert c info hash).2.toList = [⟨hash, info⟩] := by
  have holds := (@holds_empty T (hashF c) fun _ => hash).insertBy info
  have listed := holds.toList_perm
  rw [ContentMap.insert_of_not_mem List.not_mem_nil] at listed
  exact List.perm_singleton.mp listed

/-! ## A table that was filled by insertions alone -/

section Fill

variable [DecidableEq T]

/-- `insert(x, H(x))` for one content after the other, from an empty table. -/
def fill (hash_f : UString → Fin dim) (H : T → UString) (infos : List T) : HashTable T :=
  infos.foldl (fun table info => (table.insertBy hash_f info (H info)).2) empty

theorem holds_fill (infos : List T) :
    Holds hash_f H (fill hash_f H infos) (ContentMap.empty.insertAll infos) := by
  have run : ∀ table map, Holds hash_f H table map →
      Holds hash_f H (infos.foldl (fun table info => (table.insertBy hash_f info (H info)).2) table)
        (map.insertAll infos) := by
    induction infos with
    | nil => exact fun _ _ holds => holds
    | cons info infos ih => exact fun _ _ holds => ih _ _ (holds.insertBy info)
  exact run empty ContentMap.empty holds_empty

/-- The codes, the lookups and the nodes of a table that insertions filled, in terms of
the contents alone. -/
theorem fill_refines (hash_f : UString → Fin dim) (H : T → UString) (infos : List T) :
    (∀ info, ((fill hash_f H infos).insertBy hash_f info (H info)).1 = 0 ↔ info ∈ infos) ∧
    (∀ hash, (fill hash_f H infos).presentBy hash_f hash = true ↔
      ∃ info ∈ infos, H info = hash) ∧
    (∀ default hash, (fill hash_f H infos).searchBy hash_f default hash =
      (infos.find? fun info => H info = hash).getD default) ∧
    (fill hash_f H infos).toList.length = infos.toFinset.card ∧
    (∀ i, ∀ found ∈ (fill hash_f H infos).table i,
      i = hash_f found.hash ∧ found.hash = H found.info) := by
  have holds := @holds_fill T hash_f H _ infos
  have stored : ∀ info, info ∈ (ContentMap.empty.insertAll infos).contents ↔ info ∈ infos := by
    intro info
    simp [ContentMap.mem_insertAll, ContentMap.empty]
  refine ⟨?codes, ?present, ?search, ?count, ?chains⟩
  case codes =>
    intro info
    rw [holds.insertBy_fst_eq_zero_iff, stored]
  case present =>
    intro hash
    simp only [holds.presentBy_iff, stored]
  case search =>
    intro default hash
    rw [holds.searchBy_eq, ContentMap.find?_insertAll]
    rfl
  case count =>
    rw [holds.toList_perm.length_eq, List.length_map, ContentMap.length_insertAll]
  case chains =>
    intro i found member
    obtain ⟨chain, own⟩ := holds.chain member
    exact ⟨chain.symm, own⟩

end Fill

end BitMRC.HashTable

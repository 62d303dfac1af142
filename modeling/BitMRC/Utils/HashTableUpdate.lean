import BitMRC.Utils.Exn
import BitMRC.Utils.HashTable

/-!
# `hash_table::updateByHash`

The walk keeps the node before the current one in `prec`, which is a null pointer
until the first step.  Behind the walk `prec->next` receives the new node, so a
chain that is empty is not extended but followed through the null pointer.
-/

namespace BitMRC.HashTable

variable {T : Type}

/-- The loop of `updateByHash`; `prec` is the last of the nodes `passed`. -/
def updateWalk (hash : UString) (info : T) (passed : List (LinkedNode T)) :
    List (LinkedNode T) → Except Exn (Int × List (LinkedNode T))
  | [] =>
      match passed.getLast? with
      | none => .error .undefined
      | some _ => .ok (0, passed ++ [⟨hash, info⟩])
  | cur :: next =>
      if cur.hash = hash then .ok (1, passed ++ { cur with info := info } :: next)
      else updateWalk hash info (passed ++ [cur]) next

/-- `updateByHash`; `c` is what the buffer of `hash_f` holds. -/
def updateByHash (self : HashTable T) (c hash : UString) (info : T) :
    Except Exn (Int × HashTable T) := do
  let i := hashF c hash
  let (code, chain) ← updateWalk hash info [] (self.table i)
  .ok (code, { table := Function.update self.table i chain })

/-! ## What one update does -/

/-- The walk replaces the first node with the hash, or else links a node behind the
last one. -/
theorem updateWalk_cases (hash : UString) (info : T) (passed chain : List (LinkedNode T)) :
    (∃ before cur after, chain = before ++ cur :: after ∧ cur.hash = hash ∧
      (∀ node ∈ before, node.hash ≠ hash) ∧
      updateWalk hash info passed chain =
        .ok (1, passed ++ before ++ ⟨hash, info⟩ :: after)) ∨
    ((∀ node ∈ chain, node.hash ≠ hash) ∧ passed ++ chain ≠ [] ∧
      updateWalk hash info passed chain = .ok (0, passed ++ chain ++ [⟨hash, info⟩])) ∨
    (passed ++ chain = [] ∧ updateWalk hash info passed chain = .error .undefined) := by
  induction chain generalizing passed with
  | nil =>
      cases last : passed.getLast? with
      | none =>
          refine .inr (.inr ⟨by simpa using last, ?_⟩)
          simp only [updateWalk, last]
      | some prec =>
          have some : passed ≠ [] := by
            rintro rfl
            cases last
          refine .inr (.inl ⟨by simp, by simpa using some, ?_⟩)
          simp only [updateWalk, last, List.append_nil]
  | cons cur next ih =>
      by_cases found : cur.hash = hash
      · refine .inl ⟨[], cur, next, rfl, found, by simp, ?_⟩
        simp [updateWalk, found]
      · have step : updateWalk hash info passed (cur :: next) =
            updateWalk hash info (passed ++ [cur]) next := by
          rw [updateWalk, if_neg found]
        rw [step]
        rcases ih (passed ++ [cur]) with ⟨before, node, after, rfl, same, skipped, result⟩ |
          ⟨absent, _, result⟩ | ⟨none, _⟩
        · refine .inl ⟨cur :: before, node, after, rfl, same, ?_, by simpa using result⟩
          simpa [found] using skipped
        · refine .inr (.inl ⟨by simpa [found] using absent, by simp, by simpa using result⟩)
        · simp at none

section Update

variable (self : HashTable T) (c hash : UString) (info : T)

theorem present_iff : self.present c hash = true ↔
    ∃ node ∈ self.table (hashF c hash), node.hash = hash := by
  simp [present, presentBy]

/-- Only an empty chain is followed through the null pointer. -/
theorem updateByHash_of_empty (empty : self.table (hashF c hash) = []) :
    self.updateByHash c hash info = .error .undefined := by
  simp only [updateByHash, empty]
  rfl

/-- With any other chain the update returns, and its code says whether the hash was
there. -/
theorem exists_updateByHash (occupied : self.table (hashF c hash) ≠ []) :
    ∃ code updated, self.updateByHash c hash info = .ok (code, updated) ∧
      (code = 1 ↔ self.present c hash = true) ∧
      (∀ i ≠ hashF c hash, updated.table i = self.table i) ∧
      (updated.table (hashF c hash)).find? (·.hash = hash) = some ⟨hash, info⟩ ∧
      ∀ other ≠ hash, (updated.table (hashF c hash)).find? (·.hash = other) =
        (self.table (hashF c hash)).find? (·.hash = other) := by
  rcases updateWalk_cases hash info [] (self.table (hashF c hash)) with
    ⟨before, cur, after, chain, same, skipped, result⟩ | ⟨absent, _, result⟩ | ⟨none, _⟩
  case inr.inr => exact absurd none occupied
  case inl =>
    refine ⟨1, ⟨Function.update self.table (hashF c hash) (before ++ ⟨hash, info⟩ :: after)⟩,
      by rw [updateByHash, result]; rfl, ?_, ?_, ?_, ?_⟩
    · rw [present_iff, chain]
      simpa using ⟨cur, by simp, same⟩
    · intro i different
      simp [different]
    · have none : before.find? (·.hash = hash) = none := by simpa using skipped
      simp [List.find?_append, none]
    · intro other different
      simp [chain, List.find?_append, Ne.symm different, same]
  case inr.inl =>
    refine ⟨0, ⟨Function.update self.table (hashF c hash)
        (self.table (hashF c hash) ++ [⟨hash, info⟩])⟩,
      by rw [updateByHash, result]; rfl, ?_, ?_, ?_, ?_⟩
    · rw [present_iff]
      simpa using absent
    · intro i different
      simp [different]
    · have none : (self.table (hashF c hash)).find? (·.hash = hash) = none := by
        simpa using absent
      simp [List.find?_append, none]
    · intro other different
      simp [List.find?_append, Ne.symm different]

end Update

/-! ## The upsert -/

/-- The chain of the hash does not depend on the buffer of `hash_f`. -/
def Definite (hash : UString) : Prop := ∀ c c', hashF c hash = hashF c' hash

/-- `updateByHash(hash, info)` returns, with 1 for a hash that was present, and changes
what is found under this hash to `info` and nothing else, whatever `hash_f` finds in its
buffer in each of the calls. -/
def Upserts (self : HashTable T) (default : T) (hash : UString) (info : T) : Prop :=
  ∀ c, ∃ code updated, self.updateByHash c hash info = .ok (code, updated) ∧
    (∀ c', code = 1 ↔ self.present c' hash = true) ∧
    (∀ c', updated.searchByHash default c' hash = info) ∧
    ∀ other ≠ hash, ∀ c',
      updated.searchByHash default c' other = self.searchByHash default c' other ∧
      updated.present c' other = self.present c' other

theorem present_eq_isSome (self : HashTable T) (c hash : UString) :
    self.present c hash = ((self.table (hashF c hash)).find? (·.hash = hash)).isSome := by
  rw [present, presentBy, List.isSome_find?]

/-- Lookups read the first node with the hash alone. -/
theorem lookup_congr {self other : HashTable T} {c hash : UString}
    (same : (self.table (hashF c hash)).find? (·.hash = hash) =
      (other.table (hashF c hash)).find? (·.hash = hash)) (default : T) :
    self.searchByHash default c hash = other.searchByHash default c hash ∧
      self.present c hash = other.present c hash := by
  simp only [searchByHash, searchBy, present_eq_isSome, same, and_self]

/-- `updateByHash` is an upsert exactly where the chain of the hash has a node, unless
the buffer of `hash_f` makes it look into another chain afterwards. -/
theorem upserts_iff (self : HashTable T) (default : T) (hash : UString) (info : T) :
    self.Upserts default hash info ↔
      (∀ c, self.table (hashF c hash) ≠ []) ∧
      (Definite hash ∨ (∀ c, self.searchByHash default c hash = info) ∧
        ∀ c c', self.present c hash = self.present c' hash) := by
  constructor
  · intro upserts
    have occupied : ∀ c, self.table (hashF c hash) ≠ [] := by
      intro c empty
      obtain ⟨code, updated, result, _⟩ := upserts c
      rw [updateByHash_of_empty self c hash info empty] at result
      cases result
    refine ⟨occupied, or_iff_not_imp_left.mpr fun indefinite => ⟨?_, ?_⟩⟩
    · -- some buffer sends the update to a chain that the lookup with `c` does not visit
      intro c
      obtain ⟨a, elsewhere⟩ : ∃ a, hashF c hash ≠ hashF a hash := by
        by_contra none
        push Not at none
        exact indefinite fun a b => (none a).symm.trans (none b)
      obtain ⟨code, updated, result, _, chains, _⟩ :=
        exists_updateByHash self a hash info (occupied a)
      obtain ⟨code', updated', result', _, found, _⟩ := upserts a
      cases result.symm.trans result'
      have unchanged := (lookup_congr (congrArg (List.find? (·.hash = hash))
        (chains _ elsewhere)) default).1
      exact unchanged.symm.trans (found c)
    · intro c c'
      obtain ⟨code, updated, _, present, _⟩ := upserts c
      exact Bool.eq_iff_iff.mpr ((present c).symm.trans (present c'))
  · rintro ⟨occupied, definite⟩ c
    obtain ⟨code, updated, result, present, chains, found, others⟩ :=
      exists_updateByHash self c hash info (occupied c)
    refine ⟨code, updated, result, ?_, ?_, ?_⟩
    · intro c'
      rw [present]
      rcases definite with definite | ⟨_, alike⟩
      · rw [present_iff, present_iff, definite c c']
      · rw [alike c c']
    · intro c'
      by_cases here : hashF c' hash = hashF c hash
      · rw [searchByHash, searchBy, here, found]
      · rcases definite with definite | ⟨stored, _⟩
        · exact absurd (definite c' c) here
        · rw [← stored c']
          exact (lookup_congr (congrArg (List.find? (·.hash = hash)) (chains _ here)) default).1
    · intro other different c'
      apply lookup_congr
      by_cases here : hashF c' other = hashF c hash
      · rw [here]
        exact others other different
      · rw [chains _ here]

/-- A new table has no chain with a node: the first update of any hash follows the null
pointer. -/
theorem not_upserts_empty :
    (empty : HashTable UString).updateByHash [] [1, 2, 3, 4] [5] = .error .undefined ∧
      ¬(empty : HashTable UString).Upserts [] [1, 2, 3, 4] [5] := by
  refine ⟨updateByHash_of_empty empty [] [1, 2, 3, 4] [5] rfl, ?_⟩
  intro upserts
  obtain ⟨code, updated, result, _⟩ := upserts []
  cases result.symm.trans (updateByHash_of_empty empty [] [1, 2, 3, 4] [5] rfl)

end BitMRC.HashTable

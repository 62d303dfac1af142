import Mathlib.Data.List.TakeDrop
import Mathlib.Data.List.TakeWhile

/-!
# Arrays with checked bounds

An array of fixed size is a list.  An access outside of it fails, and so does every loop
that makes one.  The loops over consecutive elements are given by what they compute while
they stay inside.
-/

namespace Foundation.CheckedArray

variable {α ε : Type} (failure : ε)

/-- `array[index]`. -/
def fetch (array : List α) (index : Nat) : Except ε α :=
  match array[index]? with
  | some value => .ok value
  | none => .error failure

/-- `array[index] = value`. -/
def store (array : List α) (index : Nat) (value : α) : Except ε (List α) :=
  if index < array.length then .ok (array.set index value) else .error failure

/-- Stores at consecutive positions. -/
def storeAll : List α → Nat → List α → Except ε (List α)
  | array, _, [] => .ok array
  | array, index, value :: rest => do
      let array ← store failure array index value
      storeAll array (index + 1) rest

/-- The elements at consecutive positions. -/
def fetchAll (array : List α) : Nat → Nat → Except ε (List α)
  | 0, _ => .ok []
  | count + 1, index => do
      let value ← fetch failure array index
      let rest ← fetchAll array count (index + 1)
      return value :: rest

/-- How many of the next elements pass the test before the first one that does not. -/
def countWhile (test : α → Bool) (array : List α) : Nat → Nat → Except ε Nat
  | 0, _ => .ok 0
  | count + 1, index => do
      let value ← fetch failure array index
      if test value then
        let passed ← countWhile test array count (index + 1)
        return passed + 1
      else
        return 0

/-- `array[index] = array[source index]` at consecutive positions. -/
def copyFrom (source : Nat → Nat) : List α → Nat → Nat → Except ε (List α)
  | array, 0, _ => .ok array
  | array, count + 1, index => do
      let value ← fetch failure array (source index)
      let array ← store failure array index value
      copyFrom source array count (index + 1)

variable {failure}

theorem fetch_append (before : List α) (value : α) (after : List α) :
    fetch failure (before ++ value :: after) before.length = .ok value := by
  simp [fetch]

theorem fetch_of_le {array : List α} {index : Nat} (outside : array.length ≤ index) :
    fetch failure array index = .error failure := by
  rw [fetch, List.getElem?_eq_none outside]

theorem store_append (before : List α) (old value : α) (after : List α) :
    store failure (before ++ old :: after) before.length value =
      .ok (before ++ value :: after) := by
  simp [store]

/-- The stored values replace as many others. -/
theorem storeAll_append {before old values : List α} (size : old.length = values.length)
    (after : List α) :
    storeAll failure (before ++ (old ++ after)) before.length values =
      .ok (before ++ (values ++ after)) := by
  induction values generalizing before old with
  | nil =>
      rw [List.length_eq_zero_iff.mp size]
      rfl
  | cons value rest ih =>
      cases old with
      | nil => cases size
      | cons first old =>
          have later := @ih (before ++ [value]) old (Nat.succ.inj size)
          simp only [List.append_assoc, List.length_append, List.length_singleton,
            List.singleton_append] at later
          rw [storeAll, List.cons_append, store_append]
          exact later

theorem fetchAll_append (before values after : List α) :
    fetchAll failure (before ++ (values ++ after)) values.length before.length = .ok values := by
  induction values generalizing before with
  | nil => rfl
  | cons value rest ih =>
      have later := ih (before ++ [value])
      simp only [List.append_assoc, List.length_append, List.length_singleton,
        List.singleton_append] at later
      rw [List.length_cons, fetchAll, List.cons_append, fetch_append]
      simp only [bind, Except.bind, later]
      rfl

theorem countWhile_append (test : α → Bool) (before values after : List α) :
    countWhile failure test (before ++ (values ++ after)) values.length before.length =
      .ok (values.takeWhile test).length := by
  induction values generalizing before with
  | nil => rfl
  | cons value rest ih =>
      have later := ih (before ++ [value])
      simp only [List.append_assoc, List.length_append, List.length_singleton,
        List.singleton_append] at later
      rw [List.length_cons, countWhile, List.cons_append, fetch_append, List.takeWhile_cons]
      cases passes : test value with
      | false => simp [bind, Except.bind, pure, Except.pure, passes]
      | true =>
          simp only [bind, Except.bind, passes, later]
          rfl

/-- Elements behind a gap are moved to its front; what is behind them then, only its size
matters. -/
theorem copyFrom_append {source : Nat → Nat} (before gap values after : List α)
    (moves : ∀ index < before.length + values.length, source index = gap.length + index) :
    ∃ rest, rest.length = gap.length + after.length ∧
      copyFrom failure source (before ++ (gap ++ (values ++ after))) values.length
        before.length = .ok (before ++ (values ++ rest)) := by
  induction values generalizing before gap with
  | nil =>
      refine ⟨gap ++ after, List.length_append, rfl⟩
  | cons value values ih =>
      rw [List.length_cons] at moves
      have read : fetch failure (before ++ (gap ++ (value :: values ++ after)))
          (source before.length) = .ok value := by
        have found := @fetch_append α _ failure (before ++ gap) value (values ++ after)
        rw [moves before.length (by omega), Nat.add_comm]
        simpa using found
      obtain ⟨gap', size, write⟩ : ∃ gap', gap'.length = gap.length ∧
          store failure (before ++ (gap ++ (value :: values ++ after))) before.length value =
            .ok (before ++ [value] ++ (gap' ++ (values ++ after))) := by
        cases gap with
        | nil =>
            refine ⟨[], rfl, ?_⟩
            rw [List.nil_append, List.cons_append, store_append]
            simp
        | cons first gap =>
            refine ⟨gap ++ [value], by simp, ?_⟩
            rw [List.cons_append, store_append]
            simp
      obtain ⟨rest, length, later⟩ := ih (before ++ [value]) gap' (by
        intro index inside
        rw [List.length_append, List.length_singleton] at inside
        rw [size]
        exact moves index (by omega))
      refine ⟨rest, by rw [length, size], ?_⟩
      rw [List.length_append, List.length_singleton] at later
      rw [List.length_cons, copyFrom, read]
      simp only [bind, Except.bind, write, later]
      simp

end Foundation.CheckedArray

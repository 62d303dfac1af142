import Mathlib.Data.Nat.Digits.Lemmas

/-!
# Fixed-width positional numerals

Digits are listed from the least significant one, and `Nat.ofDigits` is their
value.  `lowDigits base width n` is the expansion of `n` cut to `width` digits.
`mulAdd` is the schoolbook loop that multiplies a numeral by a small number,
adds a small number and hands the carry on; it is the inner loop of every change
of base.
-/

namespace Foundation

open Nat (ofDigits)

/-- The `width` least significant digits of `n`. -/
def lowDigits (base : Nat) : Nat → Nat → List Nat
  | 0, _ => []
  | width + 1, n => n % base :: lowDigits base width (n / base)

@[simp] theorem lowDigits_length (base width n : Nat) :
    (lowDigits base width n).length = width := by
  induction width generalizing n with
  | zero => rfl
  | succ width ih => simp [lowDigits, ih]

theorem lowDigits_lt {base : Nat} (positive : 0 < base) (width n : Nat) :
    ∀ digit ∈ lowDigits base width n, digit < base := by
  induction width generalizing n with
  | zero => simp [lowDigits]
  | succ width ih =>
      intro digit member
      rcases List.mem_cons.mp member with equal | rest
      · exact equal ▸ Nat.mod_lt n positive
      · exact ih (n / base) digit rest

/-- A cut expansion denotes the number modulo the cut. -/
theorem ofDigits_lowDigits (base width n : Nat) :
    ofDigits base (lowDigits base width n) = n % base ^ width := by
  induction width generalizing n with
  | zero => simp [lowDigits, Nat.mod_one]
  | succ width ih =>
      rw [lowDigits, Nat.ofDigits_cons, ih, Nat.pow_succ, Nat.mul_comm (base ^ width) base,
        Nat.mod_mul]

/-- Digits below the base are recovered from their value. -/
theorem lowDigits_ofDigits {base : Nat} {digits : List Nat}
    (bounded : ∀ digit ∈ digits, digit < base) :
    lowDigits base digits.length (ofDigits base digits) = digits := by
  induction digits with
  | nil => rfl
  | cons digit rest ih =>
      have small : digit < base := bounded digit List.mem_cons_self
      have restBounded : ∀ other ∈ rest, other < base := fun other member =>
        bounded other (List.mem_cons_of_mem digit member)
      have low : (digit + base * ofDigits base rest) % base = digit := by
        rw [Nat.add_mul_mod_self_left, Nat.mod_eq_of_lt small]
      have high : (digit + base * ofDigits base rest) / base = ofDigits base rest := by
        rw [Nat.add_mul_div_left _ _ (Nat.zero_lt_of_lt small), Nat.div_eq_of_lt small,
          Nat.zero_add]
      rw [List.length_cons, lowDigits, Nat.ofDigits_cons, low, high, ih restBounded]

/-- A numeral of a small number, written with more digits, only gains zeros. -/
theorem lowDigits_of_lt {base width n : Nat} (positive : 1 < base)
    (small : n < base ^ width) (extra : Nat) :
    lowDigits base (width + extra) n =
      lowDigits base width n ++ List.replicate extra 0 := by
  apply Nat.ofDigits_inj_of_len_eq positive
  · simp
  · exact lowDigits_lt (Nat.zero_lt_of_lt positive) _ _
  · intro digit member
    rcases List.mem_append.mp member with low | zero
    · exact lowDigits_lt (Nat.zero_lt_of_lt positive) _ _ digit low
    · rw [List.eq_of_mem_replicate zero]
      exact Nat.zero_lt_of_lt positive
  · rw [Nat.ofDigits_append_replicate_zero, ofDigits_lowDigits, ofDigits_lowDigits,
      Nat.mod_eq_of_lt small, Nat.mod_eq_of_lt]
    exact Nat.lt_of_lt_of_le small
      (Nat.pow_le_pow_right (Nat.zero_lt_of_lt positive) (Nat.le_add_right width extra))

/-- Value of a numeral from its last digit on, the order in which a change of
base consumes it. -/
theorem ofDigits_reverse_concat (base digit : Nat) (digits : List Nat) :
    ofDigits base (digits ++ [digit]).reverse =
      base * ofDigits base digits.reverse + digit := by
  rw [List.reverse_append, List.reverse_singleton, List.singleton_append, Nat.ofDigits_cons,
    Nat.add_comm]

/-! ## Multiply and add -/

/-- Multiply by `factor`, add `carry`: the new digits and the carry left over. -/
def mulAdd (base factor : Nat) : List Nat → Nat → List Nat × Nat
  | [], carry => ([], carry)
  | digit :: rest, carry =>
      let t := digit * factor + carry
      let out := mulAdd base factor rest (t / base)
      (t % base :: out.1, out.2)

@[simp] theorem mulAdd_length (base factor : Nat) (digits : List Nat) (carry : Nat) :
    (mulAdd base factor digits carry).1.length = digits.length := by
  induction digits generalizing carry with
  | nil => rfl
  | cons digit rest ih => simp [mulAdd, ih]

theorem mulAdd_lt {base : Nat} (positive : 0 < base) (factor : Nat)
    (digits : List Nat) (carry : Nat) :
    ∀ digit ∈ (mulAdd base factor digits carry).1, digit < base := by
  induction digits generalizing carry with
  | nil => simp [mulAdd]
  | cons first rest ih =>
      intro digit member
      rcases List.mem_cons.mp member with equal | inRest
      · exact equal ▸ Nat.mod_lt _ positive
      · exact ih _ digit inRest

/-- Digits and carry together hold the exact result. -/
theorem mulAdd_value (base factor : Nat) (digits : List Nat) (carry : Nat) :
    ofDigits base (mulAdd base factor digits carry).1 +
        base ^ digits.length * (mulAdd base factor digits carry).2 =
      ofDigits base digits * factor + carry := by
  induction digits generalizing carry with
  | nil => simp [mulAdd]
  | cons digit rest ih =>
      have tail := ih ((digit * factor + carry) / base)
      have split := Nat.mod_add_div (digit * factor + carry) base
      simp only [mulAdd, Nat.ofDigits_cons, List.length_cons, Nat.pow_succ]
      calc (digit * factor + carry) % base +
            base * ofDigits base (mulAdd base factor rest ((digit * factor + carry) / base)).1 +
            base ^ rest.length * base *
              (mulAdd base factor rest ((digit * factor + carry) / base)).2
          = (digit * factor + carry) % base + base *
              (ofDigits base (mulAdd base factor rest ((digit * factor + carry) / base)).1 +
                base ^ rest.length *
                  (mulAdd base factor rest ((digit * factor + carry) / base)).2) := by ring
        _ = (digit + base * ofDigits base rest) * factor + carry := by
              rw [tail, Nat.mul_add, ← Nat.add_assoc, Nat.add_right_comm, split]
              ring

/-- Nothing is carried out when the result fits the width. -/
theorem mulAdd_of_lt {base factor carry : Nat} {digits : List Nat}
    (fits : ofDigits base digits * factor + carry < base ^ digits.length) :
    (mulAdd base factor digits carry).2 = 0 ∧
      ofDigits base (mulAdd base factor digits carry).1 =
        ofDigits base digits * factor + carry := by
  have value := mulAdd_value base factor digits carry
  have none : (mulAdd base factor digits carry).2 = 0 := by
    by_contra some
    have one : 1 ≤ (mulAdd base factor digits carry).2 := Nat.one_le_iff_ne_zero.mpr some
    have large := Nat.mul_le_mul_left (base ^ digits.length) one
    omega
  rw [none] at value
  exact ⟨none, by simpa using value⟩

/-- A zero numeral with nothing to add stays zero. -/
theorem mulAdd_replicate_zero (base factor count : Nat) :
    mulAdd base factor (List.replicate count 0) 0 = (List.replicate count 0, 0) := by
  induction count with
  | zero => rfl
  | succ count ih => simp [List.replicate_succ, mulAdd, ih]

end Foundation

import Mathlib.Data.Nat.Digits.Lemmas
import Mathlib.Data.Nat.Size

/-!
# Numbers in groups with a continuation mark

A number is written in a base, the lowest group first; every group but the last is
marked, by adding the base to it, so that a reader knows where the number ends.
-/

namespace Foundation

open Nat (ofDigits)

variable {base : Nat}

/-- Mark all groups but the last. -/
def marked (base : Nat) : List Nat → List Nat
  | [] => []
  | [last] => [last]
  | group :: next :: rest => (group + base) :: marked base (next :: rest)

/-- The groups of a number, marked; zero takes one group. -/
def groups (base n : Nat) : List Nat :=
  marked base (if n = 0 then [0] else Nat.digits base n)

theorem groups_of_lt {n : Nat} (small : n < base) : groups base n = [n] := by
  unfold groups
  split
  next zero => rw [zero]; rfl
  next nonzero => rw [Nat.digits_of_lt base n nonzero small]; rfl

/-- The lowest group of a number that has more of them. -/
theorem groups_of_le (positive : 1 < base) {n : Nat} (large : base ≤ n) :
    groups base n = (n % base + base) :: groups base (n / base) := by
  have nonzero : n ≠ 0 := by omega
  have rest : n / base ≠ 0 := Nat.ne_of_gt (Nat.div_pos large (by omega))
  unfold groups
  rw [if_neg nonzero, if_neg rest, Nat.digits_def' positive (Nat.pos_of_ne_zero nonzero)]
  obtain ⟨next, others, split⟩ :=
    List.exists_cons_of_ne_nil (Nat.digits_ne_nil_iff_ne_zero.mpr rest)
  rw [split, marked]

/-- Induction over the groups of a number. -/
theorem groups_induction {motive : Nat → Prop} (positive : 1 < base)
    (last : ∀ n < base, motive n) (more : ∀ n, base ≤ n → motive (n / base) → motive n)
    (n : Nat) : motive n := by
  induction n using Nat.strong_induction_on with
  | _ n ih =>
      by_cases small : n < base
      · exact last n small
      · exact more n (by omega) (ih (n / base) (Nat.div_lt_self (by omega) positive))

theorem groups_ne_nil (positive : 1 < base) (n : Nat) : groups base n ≠ [] := by
  by_cases small : n < base
  · rw [groups_of_lt small]
    exact List.cons_ne_nil _ _
  · rw [groups_of_le positive (by omega)]
    exact List.cons_ne_nil _ _

/-- The groups without their marks are the digits of the number. -/
theorem ofDigits_groups (positive : 1 < base) (n : Nat) :
    ofDigits base ((groups base n).map (· % base)) = n := by
  induction n using groups_induction positive with
  | last n small => rw [groups_of_lt small]; simp [Nat.mod_eq_of_lt small]
  | more n large ih =>
      rw [groups_of_le positive large, List.map_cons, Nat.ofDigits_cons, ih,
        Nat.add_mod_right, Nat.mod_mod]
      exact Nat.mod_add_div n base

/-- Which of the groups are marked. -/
theorem groups_split (positive : 1 < base) (n : Nat) :
    ∃ init last, groups base n = init ++ [last] ∧
      (∀ group ∈ init, base ≤ group ∧ group < 2 * base) ∧ last < base := by
  induction n using groups_induction positive with
  | last n small => exact ⟨[], n, groups_of_lt small, by simp, small⟩
  | more n large ih =>
      obtain ⟨init, last, split, marks, low⟩ := ih
      refine ⟨(n % base + base) :: init, last, ?_, ?_, low⟩
      · rw [groups_of_le positive large, split, List.cons_append]
      · intro group member
        rcases List.mem_cons.mp member with rfl | rest
        · have digit := Nat.mod_lt n (Nat.lt_trans Nat.zero_lt_one positive)
          omega
        · exact marks group rest

theorem length_groups_pos (positive : 1 < base) (n : Nat) : 0 < (groups base n).length :=
  List.length_pos_iff.mpr (groups_ne_nil positive n)

/-- The number of groups, from the bounds of the number. -/
theorem length_groups_le_iff (positive : 1 < base) (n count : Nat) :
    (groups base n).length ≤ count + 1 ↔ n < base ^ (count + 1) := by
  induction count generalizing n with
  | zero =>
      by_cases small : n < base
      · simp [groups_of_lt small, small]
      · have more := length_groups_pos positive (n / base)
        rw [groups_of_le positive (by omega)]
        simp only [List.length_cons]
        constructor
        · omega
        · intro small'
          simp at small'
          omega
  | succ count ih =>
      by_cases small : n < base
      · rw [groups_of_lt small]
        refine iff_of_true (by simp) (Nat.lt_of_lt_of_le small ?_)
        exact Nat.le_self_pow (by omega) base
      · rw [groups_of_le positive (by omega), List.length_cons, Nat.add_le_add_iff_right, ih,
          Nat.div_lt_iff_lt_mul (by omega), ← Nat.pow_succ]

/-- The groups by their places. -/
theorem groups_eq_range (positive : 1 < base) (n : Nat) :
    groups base n =
      (List.range ((groups base n).length - 1)).map (fun place => n / base ^ place % base + base) ++
        [n / base ^ ((groups base n).length - 1) % base] := by
  induction n using groups_induction positive with
  | last n small => simp [groups_of_lt small, Nat.mod_eq_of_lt small]
  | more n large ih =>
      have some := length_groups_pos positive (n / base)
      have shift (place : Nat) : n / base / base ^ place = n / base ^ (place + 1) := by
        rw [Nat.div_div_eq_div_mul, ← Nat.pow_succ']
      obtain ⟨count, length⟩ := Nat.exists_eq_add_of_lt some
      rw [Nat.zero_add] at length
      simp only [length, Nat.add_sub_cancel, shift] at ih
      rw [groups_of_le positive large, List.length_cons, length, Nat.add_sub_cancel,
        List.range_succ_eq_map, List.map_cons, List.map_map, List.cons_append, ih]
      simp [Function.comp_def]

/-- Groups of some bits, from the number of bits: at least one, none more than needed. -/
theorem length_groups_eq {width : Nat} (positive : 0 < width) (n : Nat) :
    (groups (2 ^ width) n).length = max 1 ((n.size + (width - 1)) / width) := by
  have base := Nat.one_lt_two_pow (Nat.ne_of_gt positive)
  have some := length_groups_pos base n
  have bound (count : Nat) : (groups (2 ^ width) n).length ≤ count + 1 ↔
      (n.size + (width - 1)) / width ≤ count + 1 := by
    rw [length_groups_le_iff base, ← Nat.pow_mul, ← Nat.size_le, Nat.div_le_iff_le_mul positive,
      Nat.mul_comm]
    omega
  have atLeast := (bound ((groups (2 ^ width) n).length - 1)).mp (by omega)
  have atMost := (bound ((n.size + (width - 1)) / width - 1)).mpr (by omega)
  omega

end Foundation

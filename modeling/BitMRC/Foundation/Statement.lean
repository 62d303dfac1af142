import Mathlib.Data.List.Intervals

/-!
# Lists in the text of a statement

A statement holds lists of items between parentheses, set apart by commas.  The items
are read back from the text, and numbers are filled in by a format.
-/

namespace Foundation

/-! ## Numbers -/

/-- A number in decimal digits. -/
def decimal (n : Nat) : List Char := Nat.toDigits 10 n

theorem decimal_injective {m n : Nat} (same : decimal m = decimal n) : m = n := by
  have value := congrArg (Nat.ofDigitChars 10 · 0) same
  simpa [decimal, Nat.ofDigitChars_ten_toDigits] using value

/-- A character that is no digit does not stand in a number. -/
theorem not_mem_decimal {c : Char} (other : c.isDigit = false) (n : Nat) : c ∉ decimal n := by
  intro member
  have digit := Nat.isDigit_of_mem_toDigits (by decide) (by decide) member
  rw [other] at digit
  cases digit

/-! ## Formats -/

/-- `sprintf` for formats with no other conversion than `%u`; `behind` is what it finds
when the arguments are used up. -/
def sprintf (behind : Nat) : List Char → List Nat → List Char
  | '%' :: 'u' :: rest, arg :: args => decimal arg ++ sprintf behind rest args
  | '%' :: 'u' :: rest, [] => decimal behind ++ sprintf behind rest []
  | c :: rest, args => c :: sprintf behind rest args
  | [], _ => []

/-- Text without a conversion stays. -/
theorem sprintf_text {behind : Nat} {text : List Char} (plain : '%' ∉ text)
    (rest : List Char) (args : List Nat) :
    sprintf behind (text ++ rest) args = text ++ sprintf behind rest args := by
  induction text with
  | nil => rfl
  | cons c text ih =>
      simp only [List.mem_cons, not_or] at plain
      rw [List.cons_append, List.cons_append, ← ih plain.2, sprintf]
      · intro _ _ _ _ percent
        exact absurd percent.symm plain.1
      · intro _ _ percent
        exact absurd percent.symm plain.1

/-! ## Lists between parentheses -/

/-- The text between the first parentheses, and what stands from the closing one on. -/
def parenthesised (text : List Char) : List Char × List Char :=
  let inner := (text.dropWhile (· ≠ '(')).drop 1
  (inner.takeWhile (· ≠ ')'), inner.dropWhile (· ≠ ')'))

theorem parenthesised_eq {before inner : List Char} (first : '(' ∉ before) (last : ')' ∉ inner)
    (rest : List Char) :
    parenthesised (before ++ '(' :: (inner ++ ')' :: rest)) = (inner, ')' :: rest) := by
  have skipped : ∀ c ∈ before, decide (c ≠ '(') = true := by
    intro c member
    exact decide_eq_true fun same => first (same ▸ member)
  have kept : ∀ c ∈ inner, decide (c ≠ ')') = true := by
    intro c member
    exact decide_eq_true fun same => last (same ▸ member)
  have inside : ((before ++ '(' :: (inner ++ ')' :: rest)).dropWhile (· ≠ '(')).drop 1 =
      inner ++ ')' :: rest := by
    rw [List.dropWhile_append_of_pos skipped]
    simp
  unfold parenthesised
  simp only [inside]
  rw [List.takeWhile_append_of_pos kept, List.dropWhile_append_of_pos kept]
  simp

/-- Without the blanks around it. -/
def trim (text : List Char) : List Char :=
  ((text.dropWhile (· = ' ')).reverse.dropWhile (· = ' ')).reverse

theorem trim_eq {text : List Char} (solid : ' ' ∉ text) : trim text = text := by
  have keeps {text : List Char} (solid : ' ' ∉ text) : text.dropWhile (· = ' ') = text := by
    cases text with
    | nil => rfl
    | cons c rest =>
        simp only [List.mem_cons, not_or] at solid
        simp [Ne.symm solid.1]
  have backwards : ' ' ∉ text.reverse := fun member => solid (List.mem_reverse.mp member)
  rw [trim, keeps solid, keeps backwards, List.reverse_reverse]

/-- The items of a list. -/
def items (list : List Char) : List (List Char) := (list.splitOn ',').map trim

theorem items_intercalate {list : List (List Char)} (plain : ∀ item ∈ list, ',' ∉ item)
    (nonempty : list ≠ []) : items ([','].intercalate list) = list.map trim := by
  rw [items, List.splitOn_intercalate ',' plain nonempty]

theorem not_mem_intercalate {c : Char} (comma : c ≠ ',') {list : List (List Char)}
    (plain : ∀ item ∈ list, c ∉ item) : c ∉ [','].intercalate list := by
  induction list with
  | nil => exact List.not_mem_nil
  | cons item rest ih =>
      have here := plain item List.mem_cons_self
      have there := ih fun other member => plain other (List.mem_cons_of_mem _ member)
      by_cases last : rest = []
      · rwa [last, List.intercalate_singleton]
      · rw [List.intercalate_cons_of_ne_nil last]
        simp [here, there, comma]

/-- Numbers in a list are read back. -/
theorem items_decimal (numbers : List Nat) (last : List Char) (plain : ',' ∉ last) :
    items ([','].intercalate (numbers.map decimal ++ [last])) =
      numbers.map decimal ++ [trim last] := by
  rw [items_intercalate, List.map_append, List.map_map, List.map_singleton]
  · congr 1
    apply List.map_congr_left
    intro n _
    exact trim_eq (not_mem_decimal rfl n)
  · intro item member
    rcases List.mem_append.mp member with number | final
    · obtain ⟨n, _, rfl⟩ := List.mem_map.mp number
      exact not_mem_decimal rfl n
    · rw [List.mem_singleton.mp final]
      exact plain
  · simp

/-- A list of numbers between parentheses. -/
theorem parenthesised_decimal {before last : List Char} (first : '(' ∉ before)
    (inside : ')' ∉ last) (numbers : List Nat) (rest : List Char) :
    parenthesised (before ++ '(' ::
      ([','].intercalate (numbers.map decimal ++ [last]) ++ ')' :: rest)) =
        ([','].intercalate (numbers.map decimal ++ [last]), ')' :: rest) := by
  apply parenthesised_eq first
  apply not_mem_intercalate (by decide)
  intro item member
  rcases List.mem_append.mp member with number | final
  · obtain ⟨n, _, rfl⟩ := List.mem_map.mp number
    exact not_mem_decimal rfl n
  · rw [List.mem_singleton.mp final]
    exact inside

end Foundation

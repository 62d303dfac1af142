import BitMRC.Foundation.Padding
import BitMRC.Foundation.Settles
import BitMRC.Utils.UStringCodec

/-!
# Where readers of `ustring` stop

A successful read pins down where the cursor was and where it went.  Past the end
of a string `getVarInt_B` keeps returning zero, but the next string throws.  With
lengths that are not negative all readers move forwards and depend on nothing
behind the place where they stop; bytes that are appended matter only to a
`getVarInt_B` at the end, which reads a zero there as the zero it returned before.
-/

namespace BitMRC.UString

open Foundation

variable {s : UString} {i stop : Nat}

/-! ## Inversion -/

theorem getInt8_eq_ok {byte : UInt8} :
    getInt8 s i = .ok (byte, stop) ↔
      i < s.length ∧ s[i]? = some byte ∧ stop = advance i 1 := by
  unfold getInt8
  split
  next inside =>
    constructor
    · intro read
      cases read
      exact ⟨inside, List.getElem?_eq_getElem inside, rfl⟩
    · rintro ⟨_, found, rfl⟩
      rw [List.getElem?_eq_getElem inside, Option.some.injEq] at found
      rw [found]
  next outside =>
    constructor
    · intro read
      cases read
    · rintro ⟨inside, _⟩
      exact absurd inside outside

theorem getUstring_eq_ok {len : Int} {value : UString} :
    getUstring len s i = .ok (value, stop) ↔
      i ≤ s.length ∧ value = (s.drop i).take (sizeT len) ∧ stop = advance i len := by
  unfold getUstring substr
  split
  next inside =>
    split at inside
    next => cases inside
    next reachable =>
      cases inside
      constructor
      · intro read
        cases read
        exact ⟨Nat.le_of_not_lt reachable, rfl, rfl⟩
      · rintro ⟨_, rfl, rfl⟩
        rfl
  next failure outside =>
    split at outside
    next past =>
      constructor
      · intro read
        cases read
      · rintro ⟨reachable, _⟩
        exact absurd past (Nat.not_lt.mpr reachable)
    next => cases outside

theorem getUstring_eq_error {len : Int} {failure : Exn} :
    getUstring len s i = .error failure ↔ s.length < i ∧ failure = .outOfRange := by
  unfold getUstring substr
  by_cases past : s.length < i
  · rw [if_pos past]
    constructor
    · intro read
      cases read
      exact ⟨past, rfl⟩
    · rintro ⟨_, rfl⟩
      rfl
  · simp [past]

theorem getRest_eq_ok {value : UString} (read : getRest s i = .ok (value, stop)) :
    i ≤ s.length ∧ value = s.drop i := by
  unfold getRest substr at read
  split at read
  next rest found =>
    split at found
    next => cases found
    next inside =>
      cases found
      cases read
      exact ⟨Nat.le_of_not_lt inside, List.take_of_length_le (by simp)⟩
  next => cases read

/-- `getRest` from inside a string, however long it is. -/
theorem getRest_eq (inside : i ≤ s.length) :
    getRest s i = .ok (s.drop i, s.length % 2 ^ 32) := by
  rw [getRest, substr, if_neg (Nat.not_lt.mpr inside), List.take_of_length_le (by simp)]

theorem getRest_length {value : UString} (read : getRest s i = .ok (value, stop)) :
    value.length ≤ s.length := by
  rw [(getRest_eq_ok read).2, List.length_drop]
  exact Nat.sub_le _ _

/-! ## Past the end -/

theorem getVarIntB_past (past : s.length ≤ i) : getVarIntB s i = .ok (0, i) := by
  rw [getVarIntB, if_pos past]

/-- A length-prefixed string is its length and its bytes. -/
theorem getVarUstringB_eq_ok {value : UString} :
    getVarUstringB s i = .ok (value, stop) ↔ ∃ (word : Int64) (start : Nat),
      getVarIntB s i = .ok (word, start) ∧
      getUstring word.toInt32.toInt s start = .ok (value, stop) :=
  Cursor.bind_eq_ok

/-- A string of constant length that stops inside the buffer is complete. -/
theorem getUstring_length {n : Nat} {value : UString} (short : s.length < intLimit)
    (small : n < intLimit) (read : getUstring n s i = .ok (value, stop))
    (inside : stop ≤ s.length) : value.length = n := by
  obtain ⟨reachable, valueEq, stopEq⟩ := getUstring_eq_ok.mp read
  simp only [intLimit] at short small
  rw [advance_of_lt (by omega)] at stopEq
  rw [valueEq, sizeT_natCast (by omega), List.length_take, List.length_drop]
  omega

/-- The same, when the next read needs a position inside the buffer. -/
theorem getUstring_stop {n : Nat} {value : UString} (short : s.length < intLimit)
    (small : n < intLimit) (read : getUstring n s i = .ok (value, stop)) : stop = i + n := by
  obtain ⟨reachable, _, stopEq⟩ := getUstring_eq_ok.mp read
  simp only [intLimit] at short small
  rw [stopEq, advance_of_lt (by omega)]

/-- A cursor that is inside the buffer after a step got there without wrapping around. -/
theorem advance_inside {i bound : Nat} {len : Int} (short : bound < intLimit) (start : i ≤ bound)
    (low : -2 ^ 31 ≤ len) (high : len < 2 ^ 31) (inside : advance i len ≤ bound) :
    (advance i len : Int) = i + len := by
  simp only [intLimit] at short
  unfold advance at inside ⊢
  omega

/-- With a negative length a string runs to the end of the buffer. -/
theorem getUstring_negative {len : Int} (short : s.length < intLimit) (low : -2 ^ 31 ≤ len)
    (negative : len < 0) (inside : i ≤ s.length) :
    getUstring len s i = .ok (s.drop i, advance i len) := by
  have huge : intLimit ≤ sizeT len := by
    simp only [intLimit, sizeT]
    omega
  have whole : (s.drop i).length ≤ sizeT len := by
    rw [List.length_drop]
    omega
  exact getUstring_eq_ok.mpr ⟨inside, (List.take_of_length_le whole).symm, rfl⟩

/-- So it reads whatever is appended, and moves as before. -/
theorem getUstring_negative_append {len : Int} {value : UString} (low : -2 ^ 31 ≤ len)
    (negative : len < 0) (read : getUstring len s i = .ok (value, stop)) {tail : UString}
    (short : (s ++ tail).length < intLimit) :
    getUstring len (s ++ tail) i = .ok (value ++ tail, stop) := by
  obtain ⟨inside, _, moved⟩ := getUstring_eq_ok.mp read
  rw [List.length_append] at short
  have rest := getUstring_negative (by omega) low negative inside
  cases rest.symm.trans read
  rw [getUstring_negative (by rw [List.length_append]; exact short) low negative
    (by rw [List.length_append]; omega), List.drop_append_of_le_length inside]

/-! ## Movement and locality -/

/-- Two buffers that agree up to `bound` have the same byte in front of it. -/
theorem getElem?_of_take {left right : UString} {bound index : Nat}
    (agree : left.take bound = right.take bound) (before : index < bound) :
    left[index]? = right[index]? := by
  have same := congrArg (fun taken => taken[index]?) agree
  simpa [List.getElem?_take, before] using same

theorem getInt8_steady : Cursor.Steady intLimit getInt8 := by
  have moved {s : UString} {i : Nat} (short : s.length < intLimit) (inside : i < s.length) :
      advance i 1 = i + 1 := by
    simp only [intLimit] at short
    simpa using advance_of_lt (i := i) (n := 1) (by omega)
  constructor
  · intro s i stop byte short read
    obtain ⟨inside, _, stopEq⟩ := getInt8_eq_ok.mp read
    rw [stopEq, moved short inside]
    exact Nat.le_succ i
  · intro left right bound i stop byte short _ agree before read
    obtain ⟨inside, found, stopEq⟩ := getInt8_eq_ok.mp read
    rw [stopEq, moved short inside] at before
    rw [getElem?_of_take agree (by omega)] at found
    exact getInt8_eq_ok.mpr ⟨(List.getElem?_eq_some_iff.mp found).1, found, stopEq⟩

theorem getInt32_steady : Cursor.Steady intLimit getInt32 :=
  getInt8_steady.bind fun _ => getInt8_steady.bind fun _ => getInt8_steady.bind fun _ =>
    getInt8_steady.bind fun _ => Cursor.Steady.pure _ _

theorem getInt64_steady : Cursor.Steady intLimit getInt64 :=
  getInt8_steady.bind fun _ => getInt8_steady.bind fun _ => getInt8_steady.bind fun _ =>
    getInt8_steady.bind fun _ => getInt8_steady.bind fun _ => getInt8_steady.bind fun _ =>
      getInt8_steady.bind fun _ => getInt8_steady.bind fun _ => Cursor.Steady.pure _ _

theorem getVarIntBTail_steady (firstByte : UInt8) :
    Cursor.Steady intLimit (getVarIntBTail firstByte) := by
  unfold getVarIntBTail
  split
  · exact Cursor.Steady.pure _ _
  split
  · exact getInt8_steady.bind fun _ => getInt8_steady.bind fun _ => Cursor.Steady.pure _ _
  split
  · exact getInt8_steady.bind fun _ => getInt8_steady.bind fun _ => getInt8_steady.bind fun _ =>
      getInt8_steady.bind fun _ => Cursor.Steady.pure _ _
  · exact getInt64_steady

/-- At the end of a buffer the value is made up, but then the cursor is not in front
of a bound inside the buffer. -/
theorem getVarIntB_steady : Cursor.Steady intLimit getVarIntB := by
  have whole := getInt8_steady.bind getVarIntBTail_steady
  constructor
  · intro s i stop value short read
    by_cases past : s.length ≤ i
    · rw [getVarIntB_past past] at read
      cases read
      exact Nat.le_refl i
    · rw [getVarIntB_of_inside (Nat.lt_of_not_le past)] at read
      exact whole.forward short read
  · intro left right bound i stop value short inside agree before read
    by_cases past : left.length ≤ i
    · rw [getVarIntB_past past] at read
      cases read
      omega
    · rw [getVarIntB_of_inside (Nat.lt_of_not_le past)] at read
      have same := whole.isLocal short inside agree before read
      obtain ⟨byte, middle, first, _⟩ := Cursor.bind_eq_ok.mp same
      rw [getVarIntB_of_inside (getInt8_eq_ok.mp first).1]
      exact same

/-- A string of a length that is not negative. -/
theorem getUstring_steady {len : Int} (positive : 0 ≤ len) (small : len < intLimit) :
    Cursor.Steady intLimit (getUstring len) := by
  obtain ⟨n, rfl⟩ := Int.eq_ofNat_of_zero_le positive
  have bound : n < intLimit := by exact_mod_cast small
  constructor
  · intro s i stop value short read
    rw [getUstring_stop short bound read]
    exact Nat.le_add_right i n
  · intro left right bound' i stop value short inside agree before read
    have stopEq := getUstring_stop short bound read
    obtain ⟨_, valueEq, moved⟩ := getUstring_eq_ok.mp read
    simp only [intLimit] at bound
    rw [sizeT_natCast (by omega)] at valueEq
    have long : bound' ≤ right.length := by
      have same := congrArg List.length agree
      simp only [List.length_take] at same
      omega
    refine getUstring_eq_ok.mpr ⟨by omega, ?_, moved⟩
    rw [sizeT_natCast (by omega), valueEq]
    apply List.ext_getElem?
    intro index
    simp only [List.getElem?_take, List.getElem?_drop]
    split
    next => exact getElem?_of_take agree (by omega)
    next => rfl

/-- A length-prefixed string is only read from a position inside the buffer. -/
theorem getVarUstringB_inside {value : UString} (short : s.length < intLimit)
    (read : getVarUstringB s i = .ok (value, stop)) : i ≤ s.length := by
  obtain ⟨_, _, length, text⟩ := getVarUstringB_eq_ok.mp read
  exact Nat.le_trans (getVarIntB_steady.forward short length) (getUstring_eq_ok.mp text).1

/-- The first `k` bytes, as the signature check takes them. -/
theorem getUstring_take {k : Nat} (short : s.length < intLimit) (inside : k ≤ s.length) :
    (getUstring (toInt k)).value s 0 = .ok (s.take k) := by
  simp only [intLimit] at short
  rw [toInt_of_lt (by omega)]
  apply Cursor.value_of_ok
  exact getUstring_eq_ok.mpr ⟨Nat.zero_le _, by rw [sizeT_natCast (by omega), List.drop_zero], rfl⟩

/-! ## Longer strings -/

theorem getInt8_extends : Cursor.Extends intLimit getInt8 := by
  refine ⟨getInt8_steady.forward, ?_⟩
  intro s i stop byte _ _ read tail
  obtain ⟨inside, found, stopEq⟩ := getInt8_eq_ok.mp read
  refine getInt8_eq_ok.mpr ⟨?_, ?_, stopEq⟩
  · rw [List.length_append]
    omega
  · rw [List.getElem?_append_left inside, found]

/-- Nothing is read at the end of a string. -/
theorem getInt8_padded : Cursor.Padded intLimit (0 : UInt8) 0 getInt8 :=
  getInt8_extends.padded 0 fun _ _ _ _ _ read =>
    absurd (getInt8_eq_ok.mp read).1 (Nat.lt_irrefl _)

theorem getInt32_padded : Cursor.Padded intLimit (0 : UInt8) 0 getInt32 :=
  getInt8_padded.bind fun _ => getInt8_padded.bind fun _ => getInt8_padded.bind fun _ =>
    getInt8_padded.bind fun _ => Cursor.Padded.pure _ _ _

theorem getInt64_padded : Cursor.Padded intLimit (0 : UInt8) 0 getInt64 :=
  getInt8_padded.bind fun _ => getInt8_padded.bind fun _ => getInt8_padded.bind fun _ =>
    getInt8_padded.bind fun _ => getInt8_padded.bind fun _ => getInt8_padded.bind fun _ =>
      getInt8_padded.bind fun _ => getInt8_padded.bind fun _ => Cursor.Padded.pure _ _ _

theorem getInt32_extends : Cursor.Extends intLimit getInt32 :=
  getInt8_extends.bind fun _ => getInt8_extends.bind fun _ => getInt8_extends.bind fun _ =>
    getInt8_extends.bind fun _ => Cursor.Extends.pure _ _

theorem getInt64_extends : Cursor.Extends intLimit getInt64 :=
  getInt8_extends.bind fun _ => getInt8_extends.bind fun _ => getInt8_extends.bind fun _ =>
    getInt8_extends.bind fun _ => getInt8_extends.bind fun _ => getInt8_extends.bind fun _ =>
      getInt8_extends.bind fun _ => getInt8_extends.bind fun _ => Cursor.Extends.pure _ _

theorem getVarIntBTail_extends (firstByte : UInt8) :
    Cursor.Extends intLimit (getVarIntBTail firstByte) := by
  unfold getVarIntBTail
  split
  · exact Cursor.Extends.pure _ _
  split
  · exact getInt8_extends.bind fun _ => getInt8_extends.bind fun _ => Cursor.Extends.pure _ _
  split
  · exact getInt8_extends.bind fun _ => getInt8_extends.bind fun _ => getInt8_extends.bind
      fun _ => getInt8_extends.bind fun _ => Cursor.Extends.pure _ _
  · exact getInt64_extends

/-- A `VarInt_B` that is really there. -/
theorem getVarIntB_keeps {value : Int64} (short : s.length < intLimit) (inside : i < s.length)
    (stopInside : stop ≤ s.length) (read : getVarIntB s i = .ok (value, stop)) (tail : UString) :
    getVarIntB (s ++ tail) i = .ok (value, stop) := by
  have whole := getInt8_extends.bind getVarIntBTail_extends
  rw [getVarIntB_of_inside inside] at read
  rw [getVarIntB_of_inside (by rw [List.length_append]; omega)]
  exact whole.keeps short stopInside read tail

/-- One that is missing is a zero byte. -/
theorem getVarIntB_padded : Cursor.Padded intLimit (0 : UInt8) 1 getVarIntB := by
  refine ⟨getVarIntB_steady.forward, ?_, ?_⟩
  · intro left right value _ _ read
    rw [getVarIntB_past (Nat.le_refl _)] at read ⊢
    cases read
    rfl
  · intro s i stop value short stopInside read
    by_cases inside : i < s.length
    · refine ⟨0, Nat.zero_le 1, fun _ => rfl, ?_⟩
      intro tail _
      simp only [List.replicate_zero, List.append_nil]
      exact getVarIntB_keeps short inside stopInside read tail
    · rw [getVarIntB_past (Nat.le_of_not_lt inside)] at read
      cases read
      have here : i = s.length := Nat.le_antisymm stopInside (Nat.le_of_not_lt inside)
      subst here
      refine ⟨1, Nat.le_refl 1, fun before => absurd before (Nat.lt_irrefl _), ?_⟩
      intro tail fits
      rw [List.append_assoc] at fits ⊢
      exact getVarIntB_decodes 0 s tail fits

theorem getUstring_extends {len : Int} (positive : 0 ≤ len) (small : len < intLimit) :
    Cursor.Extends intLimit (getUstring len) := by
  obtain ⟨n, rfl⟩ := Int.eq_ofNat_of_zero_le positive
  have bound : n < intLimit := by exact_mod_cast small
  refine ⟨(getUstring_steady positive small).forward, ?_⟩
  intro s i stop value short stopInside read tail
  have stopEq := getUstring_stop short bound read
  obtain ⟨reachable, valueEq, moved⟩ := getUstring_eq_ok.mp read
  simp only [intLimit] at bound
  rw [sizeT_natCast (by omega)] at valueEq
  refine getUstring_eq_ok.mpr ⟨?_, ?_, moved⟩
  · rw [List.length_append]
    omega
  · rw [sizeT_natCast (by omega), List.drop_append_of_le_length reachable,
      List.take_append_of_le_length (by rw [List.length_drop]; omega), valueEq]

theorem getUstring_padded {len : Int} (positive : 0 ≤ len) (small : len < intLimit) :
    Cursor.Padded intLimit (0 : UInt8) 0 (getUstring len) := by
  refine (getUstring_extends positive small).padded 0 ?_
  intro left right value leftShort rightShort read
  obtain ⟨n, rfl⟩ := Int.eq_ofNat_of_zero_le positive
  have bound : n < intLimit := by exact_mod_cast small
  have stays := getUstring_stop leftShort bound read
  have none : n = 0 := by omega
  subst none
  obtain ⟨_, valueEq, _⟩ := getUstring_eq_ok.mp read
  have empty : value = [] := valueEq
  simp only [intLimit] at rightShort
  have same : advance right.length 0 = right.length := advance_of_lt (n := 0) (by omega)
  exact getUstring_eq_ok.mpr ⟨Nat.le_refl _, empty, same.symm⟩

/-- Fields and everything behind them: what is appended goes to the rest. -/
theorem rest_padded {α β : Type} {count : Nat} {head : Reader α} {pack : α → UString → β}
    {value : β} (padded : Cursor.Padded intLimit (0 : UInt8) count head)
    (short : s.length < intLimit) (read : Cursor.value (head >>= fun fields =>
      getRest >>= fun rest => pure (pack fields rest)) s 0 = .ok value) :
    ∃ fields rest, value = pack fields rest ∧ rest.length ≤ s.length ∧ ∃ n ≤ count,
      ∀ tail : UString, (s ++ List.replicate n 0 ++ tail).length < intLimit →
        ∃ stop stop', head (s ++ List.replicate n 0 ++ tail) 0 = .ok (fields, stop) ∧
          getRest (s ++ List.replicate n 0 ++ tail) stop = .ok (rest ++ tail, stop') := by
  obtain ⟨_, read⟩ := Cursor.value_eq_ok.mp read
  obtain ⟨fields, stop, readFields, read⟩ := Cursor.bind_eq_ok.mp read
  obtain ⟨rest, _, readRest, read⟩ := Cursor.bind_eq_ok.mp read
  cases read
  have length := getRest_length readRest
  obtain ⟨inside, restEq⟩ := getRest_eq_ok readRest
  obtain ⟨n, nLe, nZero, grown⟩ := padded.grows short inside readFields
  refine ⟨fields, rest, rfl, length, n, nLe, ?_⟩
  intro tail fits
  have here : (s ++ List.replicate n 0 ++ tail).drop (stop + n) = rest ++ tail := by
    rw [restEq]
    by_cases before : stop < s.length
    · rw [nZero before, List.replicate_zero, List.append_nil, Nat.add_zero,
        List.drop_append_of_le_length inside]
    · have stopEq : stop = s.length := by omega
      have front : stop + n = (s ++ List.replicate n 0).length := by
        rw [List.length_append, List.length_replicate, stopEq]
      rw [front, List.drop_left, stopEq, List.drop_length, List.nil_append]
  have within : stop + n ≤ (s ++ List.replicate n 0 ++ tail).length := by
    simp only [List.length_append, List.length_replicate]
    omega
  exact ⟨_, _, grown tail fits, getRest_at fits ⟨within, here⟩⟩

/-! ## Lengths that lead back -/

/-- The `int` value of a length. -/
theorem toInt32_toInt64 (word : UInt64) :
    word.toInt64.toInt32.toInt = (word.toNat : Int).bmod (2 ^ 32) := by
  have wide : word.toInt64.toInt = (word.toNat : Int).bmod (2 ^ 64) :=
    BitVec.toInt_eq_toNat_bmod word.toBitVec
  rw [Int64.toInt_toInt32, wide]
  simp only [Int.bmod_def]
  omega

theorem mod_eq_zero_of_bmod {n : Nat} (zero : (n : Int).bmod (2 ^ 32) = 0) :
    n % 2 ^ 32 = 0 := by
  rw [Int.bmod_def] at zero
  omega

theorem bmod_eq_one {n : Nat} (one : n % 2 ^ 32 = 1) : (n : Int).bmod (2 ^ 32) = 1 := by
  rw [Int.bmod_def]
  omega

theorem bmod_rewind {n : Nat} (positive : 0 < n) (small : n ≤ 2 ^ 24) :
    ((2 ^ 32 - n : Nat) : Int).bmod (2 ^ 32) = -n := by
  rw [Int.bmod_def]
  omega

/-- The `VarInt_B` of five bytes that is read as the length `-n`. -/
def rewind (n : Nat) : UString := appendVarIntB [] (UInt64.ofNat (2 ^ 32 - n))

theorem rewind_spec {n : Nat} (positive : 0 < n) (small : n ≤ 2 ^ 24) :
    (rewind n).length = 5 ∧ ∃ word : Int64, word.toInt32.toInt = -n ∧
      Cursor.Decodes intLimit getVarIntB (rewind n) word := by
  have word : (UInt64.ofNat (2 ^ 32 - n)).toNat = 2 ^ 32 - n := by
    rw [UInt64.toNat_ofNat']
    omega
  refine ⟨?_, _, ?_, getVarIntB_decodes _⟩
  · rcases appendVarIntB_cases (UInt64.ofNat (2 ^ 32 - n)) with ⟨tiny, _⟩ | ⟨_, medium, _⟩ |
      ⟨_, _, bytes⟩ | ⟨huge, _⟩
    · omega
    · omega
    · rw [rewind, bytes]
      rfl
    · omega
  · rw [toInt32_toInt64, word]
    exact bmod_rewind positive small

/-! ## Enough bytes -/

/-- What the readers of integers throw when their bytes are missing. -/
def readFailure : Exn := .runtimeError "ustring out of range"

section Fixed

variable {limit : Nat} [CursorLimit limit]

theorem getInt8_fixed : Cursor.Fixed limit 1 readFailure getInt8 := by
  have fits : limit ≤ 2 ^ 32 := CursorLimit.le
  intro s i short
  constructor
  · intro inside
    have moved : advance i 1 = i + 1 := by
      simpa using advance_of_lt (i := i) (n := 1) (by omega)
    rw [getInt8, dif_pos (show i < s.length from inside), moved]
    exact ⟨s[i], rfl⟩
  · intro missing
    exact dif_neg (by omega)

theorem getInt32_fixed : Cursor.Fixed limit 4 readFailure getInt32 :=
  getInt8_fixed.bind fun _ => getInt8_fixed.bind fun _ => getInt8_fixed.bind fun _ =>
    getInt8_fixed.map _

theorem getInt64_fixed : Cursor.Fixed limit 8 readFailure getInt64 :=
  getInt8_fixed.bind fun _ => getInt8_fixed.bind fun _ => getInt8_fixed.bind fun _ =>
    getInt8_fixed.bind fun _ => getInt8_fixed.bind fun _ => getInt8_fixed.bind fun _ =>
      getInt8_fixed.bind fun _ => getInt8_fixed.map _

end Fixed

theorem getVarIntBTail_served (firstByte : UInt8) :
    Cursor.Served intLimit 8 (getVarIntBTail firstByte) := by
  unfold getVarIntBTail
  split
  · exact Cursor.Served.pure _ _ _
  split
  · apply Cursor.Served.mono _ (show 2 ≤ 8 by decide)
    exact Cursor.Fixed.served (getInt8_fixed.bind fun _ => getInt8_fixed.map _)
  split
  · apply Cursor.Served.mono _ (show 4 ≤ 8 by decide)
    exact Cursor.Fixed.served (getInt8_fixed.bind fun _ => getInt8_fixed.bind fun _ =>
      getInt8_fixed.bind fun _ => getInt8_fixed.map _)
  · exact getInt64_fixed.served

theorem getVarIntB_served : Cursor.Served intLimit 9 getVarIntB := by
  intro s i short room
  rw [getVarIntB_of_inside (by omega)]
  exact (getInt8_fixed.served.bind getVarIntBTail_served) short room

/-- How many bytes follow the first byte of a `VarInt_B`. -/
def varIntWidth (firstByte : UInt8) : Nat :=
  if firstByte < 253 then 0 else if firstByte = 253 then 2 else if firstByte = 254 then 4 else 8

theorem getVarIntBTail_takes {limit : Nat} [CursorLimit limit] (firstByte : UInt8) :
    Cursor.Takes limit (varIntWidth firstByte) readFailure (getVarIntBTail firstByte) := by
  unfold getVarIntBTail varIntWidth
  split
  · exact Cursor.Takes.pure _ _ _
  split
  · exact Cursor.Fixed.takes (getInt8_fixed.bind fun _ => getInt8_fixed.map _)
  split
  · exact Cursor.Fixed.takes (getInt8_fixed.bind fun _ => getInt8_fixed.bind fun _ =>
      getInt8_fixed.bind fun _ => getInt8_fixed.map _)
  · exact getInt64_fixed.takes

/-- From inside a string a `VarInt_B` is read inside it, or its bytes are missing. -/
theorem getVarIntB_cases (short : s.length < intLimit) (inside : i ≤ s.length) :
    (∃ value stop, getVarIntB s i = .ok (value, stop) ∧ stop ≤ s.length) ∨
      getVarIntB s i = .error readFailure := by
  by_cases past : s.length ≤ i
  · exact .inl ⟨0, i, getVarIntB_past past, inside⟩
  · rw [getVarIntB_of_inside (Nat.lt_of_not_le past)]
    obtain ⟨byte, first⟩ := (getInt8_fixed short).1 (show i + 1 ≤ s.length by omega)
    have tail := getVarIntBTail_takes byte short (show i + 1 ≤ s.length by omega)
    rw [Cursor.bind_of_ok first]
    by_cases room : i + 1 + varIntWidth byte ≤ s.length
    · obtain ⟨value, read⟩ := tail.1 room
      exact .inl ⟨value, _, read, room⟩
    · exact .inr (tail.2 (Nat.lt_of_not_le room))

/-- With nine bytes in front of it a length-prefixed string is always read, whatever
its length says. -/
theorem exists_getVarUstringB (short : s.length < intLimit) (room : i + 9 ≤ s.length) :
    ∃ value stop, getVarUstringB s i = .ok (value, stop) := by
  obtain ⟨len, start, read, stopLe⟩ := getVarIntB_served short room
  rw [getVarUstringB, Cursor.bind_of_ok read]
  exact ⟨_, _, getUstring_eq_ok.mpr ⟨by omega, rfl, rfl⟩⟩

/-! ## What the readers throw -/

theorem getInt8_fails : Cursor.Fails Exn.Ordinary getInt8 := by
  intro s i
  unfold getInt8
  split
  next => exact .ok _
  next => exact .error trivial

theorem getInt32_fails : Cursor.Fails Exn.Ordinary getInt32 :=
  getInt8_fails.bind fun _ => getInt8_fails.bind fun _ => getInt8_fails.bind fun _ =>
    getInt8_fails.bind fun _ => .pure _

theorem getInt64_fails : Cursor.Fails Exn.Ordinary getInt64 :=
  getInt8_fails.bind fun _ => getInt8_fails.bind fun _ => getInt8_fails.bind fun _ =>
    getInt8_fails.bind fun _ => getInt8_fails.bind fun _ => getInt8_fails.bind fun _ =>
      getInt8_fails.bind fun _ => getInt8_fails.bind fun _ => .pure _

theorem getVarIntB_fails : Cursor.Fails Exn.Ordinary getVarIntB := by
  have tail : ∀ byte, Cursor.Fails Exn.Ordinary (getVarIntBTail byte) := by
    intro byte
    unfold getVarIntBTail
    refine .ite (.pure _) (.ite ?_ (.ite ?_ getInt64_fails))
    · exact getInt8_fails.bind fun _ => getInt8_fails.bind fun _ => .pure _
    · exact getInt8_fails.bind fun _ => getInt8_fails.bind fun _ => getInt8_fails.bind fun _ =>
        getInt8_fails.bind fun _ => .pure _
  intro s i
  unfold getVarIntB
  split
  next => exact .ok _
  next => exact getInt8_fails.bind tail s i

theorem getUstring_fails (len : Int) : Cursor.Fails Exn.Ordinary (getUstring len) := by
  intro s i failure failed
  rw [(getUstring_eq_error.mp failed).2]
  trivial

/-- A `VarInt_B` that is read from inside a string ends inside it. -/
theorem getVarIntB_inside {value : Int64} (short : s.length < intLimit) (inside : i ≤ s.length)
    (read : getVarIntB s i = .ok (value, stop)) : stop ≤ s.length := by
  rcases getVarIntB_cases short inside with ⟨found, last, read', le⟩ | missing
  · cases read'.symm.trans read
    exact le
  · cases missing.symm.trans read

/-! ## The last byte of a `VarInt_B` -/

theorem getInt8_take {byte : UInt8} (short : s.length < intLimit)
    (read : getInt8 s i = .ok (byte, stop)) :
    stop = i + 1 ∧ s.take stop = s.take i ++ [byte] := by
  obtain ⟨inside, found, stopEq⟩ := getInt8_eq_ok.mp read
  have moved : stop = i + 1 := by
    simp only [intLimit] at short
    rw [stopEq]
    simpa using advance_of_lt (i := i) (n := 1) (by omega)
  refine ⟨moved, ?_⟩
  rw [moved, List.take_add_one, found, Option.toList_some]

/-- A reader that begins with a byte takes it and goes on behind it. -/
theorem bind_getInt8_take {α : Type} {next : UInt8 → Reader α} {value : α}
    (short : s.length < intLimit) (read : (getInt8 >>= next) s i = .ok (value, stop)) :
    ∃ byte, s.take (i + 1) = s.take i ++ [byte] ∧ next byte s (i + 1) = .ok (value, stop) := by
  obtain ⟨byte, _, readByte, read⟩ := Cursor.bind_eq_ok.mp read
  obtain ⟨rfl, taken⟩ := getInt8_take short readByte
  exact ⟨byte, taken, read⟩

/-- The value is the last byte read, on top of a multiple of 256 that the bytes in front
of it fix; `reader` reads them with any last byte. -/
def LastByte (reader : Reader Int64) (s : UString) (i stop : Nat) (value : Int64) : Prop :=
  ∃ (front : UString) (last : UInt8) (base : UInt64),
    stop = i + front.length + 1 ∧ s.take stop = s.take i ++ (front ++ [last]) ∧
    base.toNat % 256 = 0 ∧ value = (base + last.toUInt64).toInt64 ∧
    ∀ byte, Cursor.Decodes intLimit reader (front ++ [byte]) (base + byte.toUInt64).toInt64

theorem getVarIntBTail_last_253 {value : Int64} (short : s.length < intLimit)
    (read : getVarIntBTail 253 s i = .ok (value, stop)) :
    LastByte (getVarIntBTail 253) s i stop value := by
  obtain ⟨b2, take2, read⟩ := bind_getInt8_take short read
  obtain ⟨b1, take1, read⟩ := bind_getInt8_take short read
  cases read
  refine ⟨[b2], b1, b2.toUInt64 <<< 8, rfl, ?_, ?_, rfl, ?_⟩
  · rw [take1, take2]
    simp
  · simp [Nat.shiftLeft_eq]
  · intro byte
    exact decodes_cons (decodes_cons (decodes_return rfl))

theorem getVarIntBTail_last_254 {value : Int64} (short : s.length < intLimit)
    (read : getVarIntBTail 254 s i = .ok (value, stop)) :
    LastByte (getVarIntBTail 254) s i stop value := by
  obtain ⟨b4, take4, read⟩ := bind_getInt8_take short read
  obtain ⟨b3, take3, read⟩ := bind_getInt8_take short read
  obtain ⟨b2, take2, read⟩ := bind_getInt8_take short read
  obtain ⟨b1, take1, read⟩ := bind_getInt8_take short read
  cases read
  -- the sum of 32 bits has no carry out of its low byte
  have split (byte : UInt8) : ((b4.toUInt32 <<< 24) + (b3.toUInt32 <<< 16) +
      (b2.toUInt32 <<< 8) + byte.toUInt32).toUInt64 = ((b4.toUInt32 <<< 24) +
      (b3.toUInt32 <<< 16) + (b2.toUInt32 <<< 8)).toUInt64 + byte.toUInt64 := by
    apply UInt64.toNat_inj.mp
    have range4 := b4.toNat_lt
    have range3 := b3.toNat_lt
    have range2 := b2.toNat_lt
    have range1 := byte.toNat_lt
    simp [Nat.shiftLeft_eq]
    omega
  refine ⟨[b4, b3, b2], b1, ((b4.toUInt32 <<< 24) + (b3.toUInt32 <<< 16) +
    (b2.toUInt32 <<< 8)).toUInt64, rfl, ?_, ?_, congrArg UInt64.toInt64 (split b1), ?_⟩
  · rw [take1, take2, take3, take4]
    simp
  · simp [Nat.shiftLeft_eq]
    omega
  · intro byte
    exact decodes_cons (decodes_cons (decodes_cons (decodes_cons
      (decodes_return (congrArg UInt64.toInt64 (split byte))))))

theorem getInt64_last {value : Int64} (short : s.length < intLimit)
    (read : getInt64 s i = .ok (value, stop)) : LastByte getInt64 s i stop value := by
  obtain ⟨b8, take8, read⟩ := bind_getInt8_take short read
  obtain ⟨b7, take7, read⟩ := bind_getInt8_take short read
  obtain ⟨b6, take6, read⟩ := bind_getInt8_take short read
  obtain ⟨b5, take5, read⟩ := bind_getInt8_take short read
  obtain ⟨b4, take4, read⟩ := bind_getInt8_take short read
  obtain ⟨b3, take3, read⟩ := bind_getInt8_take short read
  obtain ⟨b2, take2, read⟩ := bind_getInt8_take short read
  obtain ⟨b1, take1, read⟩ := bind_getInt8_take short read
  cases read
  refine ⟨[b8, b7, b6, b5, b4, b3, b2], b1, (b8.toUInt64 <<< 56) + (b7.toUInt64 <<< 48)
    + (b6.toUInt64 <<< 40) + (b5.toUInt64 <<< 32) + (b4.toUInt64 <<< 24)
    + (b3.toUInt64 <<< 16) + (b2.toUInt64 <<< 8), rfl, ?_, ?_, rfl, ?_⟩
  · rw [take1, take2, take3, take4, take5, take6, take7, take8]
    simp
  · simp [Nat.shiftLeft_eq]
    omega
  · intro byte
    exact decodes_cons (decodes_cons (decodes_cons (decodes_cons
      (decodes_cons (decodes_cons (decodes_cons (decodes_cons (decodes_return rfl))))))))

theorem getVarIntBTail_last {first : UInt8} {value : Int64} (short : s.length < intLimit)
    (wide : ¬(first < 253)) (read : getVarIntBTail first s i = .ok (value, stop)) :
    LastByte (getVarIntBTail first) s i stop value := by
  by_cases two : first = 253
  · subst two
    exact getVarIntBTail_last_253 short read
  by_cases four : first = 254
  · subst four
    exact getVarIntBTail_last_254 short read
  have eight : getVarIntBTail first = getInt64 := by
    rw [getVarIntBTail, if_neg wide, if_neg two, if_neg four]
  rw [eight] at read ⊢
  exact getInt64_last short read

/-- The value of a `VarInt_B` is the last byte on top of a multiple of 256 that the bytes
in front of it fix; a last byte below 253 can also be the only one. -/
theorem getVarIntB_last {value : Int64} (short : s.length < intLimit) (inside : i < s.length)
    (read : getVarIntB s i = .ok (value, stop)) :
    ∃ (front : UString) (last : UInt8) (base : UInt64),
      stop = i + front.length + 1 ∧ s.take stop = s.take i ++ (front ++ [last]) ∧
      base.toNat % 256 = 0 ∧ value = (base + last.toUInt64).toInt64 ∧
      ∀ byte < 253, Cursor.Decodes intLimit getVarIntB (front ++ [byte])
        (base + byte.toUInt64).toInt64 := by
  rw [getVarIntB_of_inside inside] at read
  obtain ⟨first, takeFirst, read⟩ := bind_getInt8_take short read
  by_cases narrow : first < 253
  · rw [getVarIntBTail, if_pos narrow] at read
    cases read
    refine ⟨[], first, 0, rfl, takeFirst, rfl, by rw [UInt64.zero_add], ?_⟩
    intro byte small
    apply getVarIntB_decodes_of_tail
    rw [getVarIntBTail, if_pos small, UInt64.zero_add]
    exact decodes_return rfl
  · obtain ⟨front, last, base, stopEq, taken, aligned, valueEq, decodes⟩ :=
      getVarIntBTail_last short narrow read
    refine ⟨first :: front, last, base, ?_, ?_, aligned, valueEq, ?_⟩
    · rw [stopEq, List.length_cons]
      omega
    · rw [taken, takeFirst, List.append_assoc]
      rfl
    · exact fun byte _ => getVarIntB_decodes_of_tail (decodes byte)

/-- A length of zero becomes one with its last byte. -/
theorem getVarIntB_bump {value : Int64} (short : s.length < intLimit) (inside : i < s.length)
    (read : getVarIntB s i = .ok (value, stop)) (zero : value.toInt32.toInt = 0) (tail : UString)
    (fits : (s.take (stop - 1) ++ ([1] ++ tail)).length < intLimit) :
    i < stop ∧ stop ≤ s.length ∧
      ∃ bumped, getVarIntB (s.take (stop - 1) ++ ([1] ++ tail)) i = .ok (bumped, stop) ∧
        bumped.toInt32.toInt = 1 := by
  obtain ⟨front, last, base, stopEq, taken, aligned, valueEq, decodes⟩ :=
    getVarIntB_last short inside read
  have whole := congrArg List.length taken
  simp only [List.length_take, List.length_append, List.length_singleton] at whole
  have low : (base.toNat + last.toNat) % 2 ^ 64 % 2 ^ 32 = 0 := by
    rw [valueEq, toInt32_toInt64, UInt64.toNat_add, UInt8.toNat_toUInt64] at zero
    exact mod_eq_zero_of_bmod zero
  have bound := last.toNat_lt
  refine ⟨by omega, by omega, (base + (1 : UInt8).toUInt64).toInt64, ?_, ?_⟩
  · have frontTaken : s.take (stop - 1) = s.take i ++ front := by
      have shorter := congrArg (List.take (stop - 1)) taken
      have split : i + front.length = (s.take i ++ front).length := by
        rw [List.length_append, List.length_take]
        omega
      rw [List.take_take, Nat.min_eq_left (by omega), ← List.append_assoc] at shorter
      rw [shorter, stopEq, Nat.add_sub_cancel, split, List.take_left]
    have found := decodes 1 (by decide) (s.take i) tail (by
      rw [frontTaken] at fits
      simpa using fits)
    rw [List.length_take_of_le (Nat.le_of_lt inside)] at found
    rw [frontTaken, stopEq]
    simpa [Nat.add_assoc] using found
  · have one : (base.toNat + 1) % 2 ^ 64 % 2 ^ 32 = 1 := by omega
    rw [toInt32_toInt64, UInt64.toNat_add, UInt8.toNat_toUInt64]
    exact bmod_eq_one one

end BitMRC.UString

import BitMRC.Utils.BigEndian
import BitMRC.Utils.UStringReads

/-!
# String readers and the end of the buffer

`getInt8` throws behind the end of a buffer, but the string readers do not: `substr`
cuts a string that is too long, and the cursor moves by the length that was asked for,
modulo `2^32`.  This module says exactly when a string is read as it was declared.
-/

namespace BitMRC.UString

open Foundation

/-! ## `std::string` results -/

/-- `toString`; its `unsigned int` never reaches a length of `2^32` or more. -/
protected def toString (s : UString) : Option UString :=
  if s.length < 2 ^ 32 then some s else none

/-- A string that was read is copied by `toString`. -/
def asString (read : Except Exn (UString × Nat)) : Option (Except Exn (UString × Nat)) :=
  match read with
  | .ok (tmp, stop) => (UString.toString tmp).map fun ret => .ok (ret, stop)
  | .error failure => some (.error failure)

/-- `getString`, whose result is a `std::string`. -/
def getString (len : Int) (s : UString) (i : Nat) : Option (Except Exn (UString × Nat)) :=
  asString (getUstring len s i)

/-- `getVarString_B`, whose result is a `std::string`. -/
def getVarStringB (s : UString) (i : Nat) : Option (Except Exn (UString × Nat)) :=
  asString (getVarUstringB s i)

/-! ## What is declared -/

/-- The value of a `VarInt_B` with this first byte and these bytes behind it. -/
def varIntValue (firstByte : UInt8) (bytes : UString) : Nat :=
  if firstByte < 253 then firstByte.toNat else beNat bytes

/-- The length that a prefix at `i` declares, and where the string starts; at the end of
the buffer nothing is declared, and inside a prefix that is cut there is no length. -/
def declared (b : UString) (i : Nat) : Option (Nat × Nat) :=
  match b[i]? with
  | none => some (0, i)
  | some first =>
      let width := varIntWidth first
      if i + 1 + width ≤ b.length then
        some (varIntValue first ((b.drop (i + 1)).take width), i + 1 + width)
      else
        none

/-- A field of `len` bytes at `i`. -/
def requested (len : Int) (i : Nat) : Option (Nat × Nat) :=
  if 0 ≤ len then some (len.toNat, i) else none

/-- The reader throws, or it returns the bytes of the field, all of them, and the cursor
stands directly behind them, inside the buffer and not before `i`. -/
def Contained (b : UString) (i : Nat) (field : Option (Nat × Nat)) :
    Option (Except Exn (UString × Nat)) → Prop
  | none => False
  | some (.error failure) => failure ≠ .undefined
  | some (.ok (value, stop)) =>
      ∃ count start, field = some (count, start) ∧ value = (b.drop start).take count ∧
        value.length = count ∧ stop = start + count ∧ stop ≤ b.length ∧ i ≤ stop

/-- The string lies inside the buffer, and neither its length nor the cursor behind it is
changed by a conversion; a prefix that is cut is noticed where no cursor wraps around. -/
def Complete (b : UString) (i : Nat) : Prop :=
  match declared b i with
  | none => b.length < 2 ^ 32
  | some (count, start) =>
      start + count ≤ b.length ∧ start + count < 2 ^ 32 ∧
        (count < 2 ^ 31 ∨ start + count = b.length)

instance (b : UString) (i : Nat) : Decidable (Complete b i) :=
  match found : declared b i with
  | none => decidable_of_iff (b.length < 2 ^ 32) (by rw [Complete, found])
  | some (count, start) =>
      decidable_of_iff (start + count ≤ b.length ∧ start + count < 2 ^ 32 ∧
        (count < 2 ^ 31 ∨ start + count = b.length)) (by rw [Complete, found])

section Contained

variable {b : UString} {i : Nat} {field : Option (Nat × Nat)}

theorem advance_lt (i : Nat) (len : Int) : advance i len < 2 ^ 32 := by
  unfold advance
  omega

/-- The copy of a string that is read as it was declared ends. -/
theorem contained_asString {read : Except Exn (UString × Nat)}
    (cursor : ∀ value stop, read = .ok (value, stop) → stop < 2 ^ 32) :
    Contained b i field (asString read) ↔ Contained b i field (some read) := by
  cases read with
  | error failure => rfl
  | ok found =>
      obtain ⟨value, stop⟩ := found
      by_cases short : value.length < 2 ^ 32
      · simp only [asString, UString.toString, if_pos short, Option.map_some]
      · simp only [asString, UString.toString, if_neg short, Option.map_none, Contained, false_iff]
        rintro ⟨count, start, _, _, length, moved, _⟩
        have bound := cursor value stop rfl
        omega

theorem getUstring_cursor {len : Int} {value : UString} {stop : Nat}
    (read : getUstring len b i = .ok (value, stop)) : stop < 2 ^ 32 := by
  rw [(getUstring_eq_ok.mp read).2.2]
  exact advance_lt i len

theorem getVarUstringB_cursor {value : UString} {stop : Nat}
    (read : getVarUstringB b i = .ok (value, stop)) : stop < 2 ^ 32 := by
  obtain ⟨word, start, _, text⟩ := getVarUstringB_eq_ok.mp read
  exact getUstring_cursor text

theorem getUstring_inside (len : Int) (inside : i ≤ b.length) :
    getUstring len b i = .ok ((b.drop i).take (sizeT len), advance i len) :=
  getUstring_eq_ok.mpr ⟨inside, rfl, rfl⟩

/-- A string of a given length is read as it was declared if and only if it lies inside
the buffer. -/
theorem contained_getUstring {len : Int} (inside : i ≤ b.length) (int : len < 2 ^ 31) :
    Contained b i (requested len i) (some (getUstring len b i)) ↔
      0 ≤ len ∧ i + len ≤ b.length ∧ i + len < 2 ^ 32 := by
  rw [getUstring_inside len inside, requested]
  by_cases nonnegative : 0 ≤ len
  · have size : sizeT len = len.toNat := by
      unfold sizeT
      omega
    rw [if_pos nonnegative, size]
    constructor
    · rintro ⟨count, start, same, _, length, moved, _⟩
      cases same
      have bound := advance_lt i len
      rw [List.length_take, List.length_drop] at length
      omega
    · rintro ⟨_, room, small⟩
      refine ⟨len.toNat, i, rfl, rfl, ?_, ?_, ?_, ?_⟩
      · rw [List.length_take, List.length_drop]
        omega
      all_goals
        unfold advance
        omega
  · rw [if_neg nonnegative]
    constructor
    · rintro ⟨count, start, same, _⟩
      cases same
    · rintro ⟨positive, _⟩
      exact absurd positive nonnegative

/-! ## Prefixes -/

/-- A reader that begins with a byte, in front of it. -/
theorem bind_getInt8_of_take {α : Type} {next : UInt8 → Reader α} {byte : UInt8}
    {rest : UString} {count : Nat} (taken : (b.drop i).take (count + 1) = byte :: rest)
    (small : i + 1 < 2 ^ 32) :
    (getInt8 >>= next) b i = next byte b (i + 1) ∧ (b.drop (i + 1)).take count = rest := by
  have inside : i < b.length := by
    have length := congrArg List.length taken
    rw [List.length_take, List.length_drop, List.length_cons] at length
    omega
  rw [List.drop_eq_getElem_cons inside, List.take_succ_cons] at taken
  obtain ⟨rfl, rfl⟩ := List.cons_eq_cons.mp taken
  have read : getInt8 b i = .ok (b[i], i + 1) := by
    have moved : advance i 1 = i + 1 := by simpa using advance_of_lt (n := 1) small
    rw [getInt8, dif_pos inside, moved]
  exact ⟨Cursor.bind_of_ok read, rfl⟩

theorem word16_toNat (b2 b1 : UInt8) :
    ((b2.toUInt64 <<< 8) + b1.toUInt64).toNat = beNat [b2, b1] := by
  have range2 := b2.toNat_lt
  have range1 := b1.toNat_lt
  simp [beNat, Nat.ofDigits_cons, Nat.shiftLeft_eq]
  omega

theorem word32_toNat (b4 b3 b2 b1 : UInt8) :
    ((b4.toUInt32 <<< 24) + (b3.toUInt32 <<< 16) + (b2.toUInt32 <<< 8)
      + b1.toUInt32).toUInt64.toNat = beNat [b4, b3, b2, b1] := by
  have range4 := b4.toNat_lt
  have range3 := b3.toNat_lt
  have range2 := b2.toNat_lt
  have range1 := b1.toNat_lt
  simp [beNat, Nat.ofDigits_cons, Nat.shiftLeft_eq]
  omega

theorem word64_toNat (b8 b7 b6 b5 b4 b3 b2 b1 : UInt8) :
    ((b8.toUInt64 <<< 56) + (b7.toUInt64 <<< 48) + (b6.toUInt64 <<< 40)
      + (b5.toUInt64 <<< 32) + (b4.toUInt64 <<< 24) + (b3.toUInt64 <<< 16)
      + (b2.toUInt64 <<< 8) + b1.toUInt64).toNat = beNat [b8, b7, b6, b5, b4, b3, b2, b1] := by
  have range8 := b8.toNat_lt
  have range7 := b7.toNat_lt
  have range6 := b6.toNat_lt
  have range5 := b5.toNat_lt
  have range4 := b4.toNat_lt
  have range3 := b3.toNat_lt
  have range2 := b2.toNat_lt
  have range1 := b1.toNat_lt
  simp [beNat, Nat.ofDigits_cons, Nat.shiftLeft_eq]
  omega

/-- The bytes behind the first one, when all of them are there. -/
theorem getVarIntBTail_value (first : UInt8) (room : i + varIntWidth first ≤ b.length)
    (small : i + varIntWidth first < 2 ^ 32) :
    ∃ word : UInt64, getVarIntBTail first b i = .ok (word.toInt64, i + varIntWidth first) ∧
      word.toNat = varIntValue first ((b.drop i).take (varIntWidth first)) := by
  have size : ((b.drop i).take (varIntWidth first)).length = varIntWidth first := by
    rw [List.length_take, List.length_drop]
    omega
  unfold varIntWidth at room small size ⊢
  unfold getVarIntBTail varIntValue
  by_cases narrow : first < 253
  · simp only [if_pos narrow]
    exact ⟨first.toUInt64, rfl, UInt8.toNat_toUInt64 first⟩
  simp only [if_neg narrow] at room small size ⊢
  by_cases two : first = 253
  · simp only [if_pos two] at room small size ⊢
    obtain ⟨b2, b1, taken⟩ := List.length_eq_two.mp size
    obtain ⟨first2, taken1⟩ := bind_getInt8_of_take taken (by omega)
    obtain ⟨first1, _⟩ := bind_getInt8_of_take taken1 (by omega)
    rw [first2, first1, taken]
    exact ⟨_, rfl, word16_toNat b2 b1⟩
  simp only [if_neg two] at room small size ⊢
  by_cases four : first = 254
  · simp only [if_pos four] at room small size ⊢
    obtain ⟨b4, b3, b2, b1, taken⟩ : ∃ b4 b3 b2 b1, (b.drop i).take 4 = [b4, b3, b2, b1] := by
      match (b.drop i).take 4, size with
      | [b4, b3, b2, b1], _ => exact ⟨b4, b3, b2, b1, rfl⟩
    obtain ⟨first4, taken3⟩ := bind_getInt8_of_take taken (by omega)
    obtain ⟨first3, taken2⟩ := bind_getInt8_of_take taken3 (by omega)
    obtain ⟨first2, taken1⟩ := bind_getInt8_of_take taken2 (by omega)
    obtain ⟨first1, _⟩ := bind_getInt8_of_take taken1 (by omega)
    rw [first4, first3, first2, first1, taken]
    exact ⟨_, rfl, word32_toNat b4 b3 b2 b1⟩
  simp only [if_neg four] at room small size ⊢
  obtain ⟨b8, b7, b6, b5, b4, b3, b2, b1, taken⟩ : ∃ b8 b7 b6 b5 b4 b3 b2 b1,
      (b.drop i).take 8 = [b8, b7, b6, b5, b4, b3, b2, b1] := by
    match (b.drop i).take 8, size with
    | [b8, b7, b6, b5, b4, b3, b2, b1], _ => exact ⟨b8, b7, b6, b5, b4, b3, b2, b1, rfl⟩
  obtain ⟨first8, taken7⟩ := bind_getInt8_of_take taken (by omega)
  obtain ⟨first7, taken6⟩ := bind_getInt8_of_take taken7 (by omega)
  obtain ⟨first6, taken5⟩ := bind_getInt8_of_take taken6 (by omega)
  obtain ⟨first5, taken4⟩ := bind_getInt8_of_take taken5 (by omega)
  obtain ⟨first4, taken3⟩ := bind_getInt8_of_take taken4 (by omega)
  obtain ⟨first3, taken2⟩ := bind_getInt8_of_take taken3 (by omega)
  obtain ⟨first2, taken1⟩ := bind_getInt8_of_take taken2 (by omega)
  obtain ⟨first1, _⟩ := bind_getInt8_of_take taken1 (by omega)
  rw [getInt64, first8, first7, first6, first5, first4, first3, first2, first1, taken]
  exact ⟨_, rfl, word64_toNat b8 b7 b6 b5 b4 b3 b2 b1⟩

/-- Inside the buffer the first byte says how many bytes a prefix has. -/
theorem declared_inside (within : i < b.length) :
    declared b i = if i + 1 + varIntWidth b[i] ≤ b.length then
        some (varIntValue b[i] ((b.drop (i + 1)).take (varIntWidth b[i])),
          i + 1 + varIntWidth b[i])
      else none := by
  rw [declared, List.getElem?_eq_getElem within]

theorem declared_past (past : b.length ≤ i) : declared b i = some (0, i) := by
  rw [declared, List.getElem?_eq_none past]

/-- What is declared starts behind the prefix, inside the buffer. -/
theorem declared_start {count start : Nat} (inside : i ≤ b.length)
    (found : declared b i = some (count, start)) : i ≤ start ∧ start ≤ b.length := by
  by_cases within : i < b.length
  · rw [declared_inside within] at found
    split at found
    next room =>
      cases found
      omega
    next => cases found
  · rw [declared_past (Nat.le_of_not_lt within)] at found
    cases found
    omega

theorem getVarIntB_first (within : i < b.length) (small : i + 1 < 2 ^ 32) :
    getVarIntB b i = getVarIntBTail b[i] b (i + 1) := by
  have whole : (b.drop i).take 1 = [b[i]] := by
    rw [List.drop_eq_getElem_cons within, List.take_succ_cons, List.take_zero]
  rw [getVarIntB_of_inside within, (bind_getInt8_of_take whole small).1]

/-- Where no cursor wraps around, `getVarInt_B` returns what is declared. -/
theorem getVarIntB_declared {count start : Nat} (found : declared b i = some (count, start))
    (small : start < 2 ^ 32) :
    ∃ word : UInt64, getVarIntB b i = .ok (word.toInt64, start) ∧ word.toNat = count := by
  by_cases within : i < b.length
  · rw [declared_inside within] at found
    split at found
    next room =>
      cases found
      obtain ⟨word, tail, value⟩ := getVarIntBTail_value b[i] room small
      exact ⟨word, (getVarIntB_first within (by omega)).trans tail, value⟩
    next => cases found
  · rw [declared_past (Nat.le_of_not_lt within)] at found
    cases found
    exact ⟨0, getVarIntB_past (Nat.le_of_not_lt within), rfl⟩

/-- In a buffer without wrap-around a prefix that is cut is noticed. -/
theorem getVarIntB_cut (found : declared b i = none) (short : b.length < 2 ^ 32) :
    getVarIntB b i = .error readFailure := by
  by_cases within : i < b.length
  · rw [declared_inside within] at found
    split at found
    next => cases found
    next missing =>
      rw [getVarIntB_first within (by omega)]
      exact (getVarIntBTail_takes b[i] short within).2 (by omega)
  · rw [declared_past (Nat.le_of_not_lt within)] at found
    cases found

/-- What was read was declared. -/
theorem declared_of_getVarIntB {v : UInt64} {stop : Nat} (short : b.length < 2 ^ 32)
    (inside : i ≤ b.length) (read : getVarIntB b i = .ok (v.toInt64, stop)) :
    declared b i = some (v.toNat, stop) := by
  cases found : declared b i with
  | none => cases (getVarIntB_cut found short).symm.trans read
  | some field =>
      obtain ⟨count, start⟩ := field
      obtain ⟨_, within⟩ := declared_start inside found
      obtain ⟨word, read', rfl⟩ := getVarIntB_declared found (Nat.lt_of_le_of_lt within short)
      obtain ⟨same, stop⟩ := Prod.mk.inj (Except.ok.inj (read'.symm.trans read))
      have value : word = v := congrArg Int64.toUInt64 same
      rw [value, stop]

/-- A written `VarInt_B` is read to its end. -/
theorem getVarIntB_appendVarIntB (v : UInt64) :
    getVarIntB (appendVarIntB [] v) 0 = .ok (v.toInt64, (appendVarIntB [] v).length) := by
  have short : (appendVarIntB [] v).length < intLimit :=
    Nat.lt_of_le_of_lt (appendVarIntB_length_le v) (by decide)
  have decodes : Cursor.Decodes intLimit getVarIntB (appendVarIntB [] v) v.toInt64 :=
    getVarIntB_decodes v
  have read := decodes.from_start [] (by rwa [List.append_nil])
  rwa [List.append_nil] at read

/-- A written `VarInt_B` declares its value, wherever it stands. -/
theorem declared_appendVarIntB (before after : UString) (v : UInt64) :
    declared (before ++ (appendVarIntB [] v ++ after)) before.length =
      some (v.toNat, before.length + (appendVarIntB [] v).length) := by
  have positive := appendVarIntB_length_pos v
  have alone := declared_of_getVarIntB
    (Nat.lt_of_le_of_lt (appendVarIntB_length_le v) (by decide)) (Nat.zero_le _)
    (getVarIntB_appendVarIntB v)
  generalize appendVarIntB [] v = encoding at alone positive ⊢
  have within : before.length < (before ++ (encoding ++ after)).length := by
    simp only [List.length_append]
    omega
  have first : (before ++ (encoding ++ after))[before.length] = encoding[0] := by
    simp [positive]
  rw [declared_inside positive] at alone
  rw [declared_inside within, first]
  split at alone
  next room =>
    obtain ⟨value, width⟩ := Prod.mk.inj (Option.some.inj alone)
    have bytes : ((before ++ (encoding ++ after)).drop (before.length + 1)).take
        (varIntWidth encoding[0]) = (encoding.drop (0 + 1)).take (varIntWidth encoding[0]) := by
      rw [List.drop_append, List.drop_eq_nil_of_le (by omega), List.nil_append,
        Nat.add_sub_cancel_left, List.drop_append_of_le_length (by omega), Nat.zero_add,
        List.take_append_of_le_length]
      rw [List.length_drop]
      omega
    rw [if_pos, bytes, value]
    · congr 2
      omega
    · simp only [List.length_append]
      omega
  next => cases alone

/-! ## Buffers that are longer than a cursor can say -/

/-- The reader returns from every cursor. -/
def Endless {α : Type} (b : UString) (reader : Reader α) : Prop :=
  ∀ i < 2 ^ 32, ∃ value stop, reader b i = .ok (value, stop) ∧ stop < 2 ^ 32

namespace Endless

theorem pure {α : Type} (value : α) : Endless b (Pure.pure value : Reader α) :=
  fun i small => ⟨value, i, rfl, small⟩

theorem bind {α β : Type} {reader : Reader α} {next : α → Reader β} (head : Endless b reader)
    (tail : ∀ value, Endless b (next value)) : Endless b (reader >>= next) := by
  intro i small
  obtain ⟨value, stop, read, small⟩ := head i small
  rw [Cursor.bind_of_ok read]
  exact tail value stop small

theorem stop_lt {α : Type} {reader : Reader α} (endless : Endless b reader) {value : α}
    {stop : Nat} (small : i < 2 ^ 32) (read : reader b i = .ok (value, stop)) :
    stop < 2 ^ 32 := by
  obtain ⟨_, _, read', bound⟩ := endless i small
  cases read'.symm.trans read
  exact bound

theorem getInt8 (long : 2 ^ 32 ≤ b.length) : Endless b getInt8 := by
  intro i small
  have inside : i < b.length := Nat.lt_of_lt_of_le small long
  exact ⟨b[i], advance i 1, dif_pos inside, advance_lt i 1⟩

theorem getVarIntB (long : 2 ^ 32 ≤ b.length) : Endless b getVarIntB := by
  have byte := getInt8 long
  have tail : ∀ first, Endless b (getVarIntBTail first) := by
    intro first
    unfold getVarIntBTail
    split
    · exact pure _
    split
    · exact byte.bind fun _ => byte.bind fun _ => pure _
    split
    · exact byte.bind fun _ => byte.bind fun _ => byte.bind fun _ => byte.bind fun _ => pure _
    · exact byte.bind fun _ => byte.bind fun _ => byte.bind fun _ => byte.bind fun _ =>
        byte.bind fun _ => byte.bind fun _ => byte.bind fun _ => byte.bind fun _ => pure _
  intro i small
  rw [getVarIntB_of_inside (Nat.lt_of_lt_of_le small long)]
  exact byte.bind tail i small

theorem getVarUstringB (long : 2 ^ 32 ≤ b.length) : Endless b getVarUstringB := by
  refine (getVarIntB long).bind fun word i small => ?_
  exact ⟨_, _, getUstring_inside _ (by omega), advance_lt i _⟩

end Endless

/-! ## Length-prefixed strings -/

/-- A string whose prefix was read, by the length that the prefix declares. -/
theorem contained_declared {count start : Nat} (word : UInt64) (value : word.toNat = count)
    (before : i ≤ start) (inside : start ≤ b.length) :
    Contained b i (some (count, start)) (some (getUstring word.toInt64.toInt32.toInt b start)) ↔
      start + count ≤ b.length ∧ start + count < 2 ^ 32 ∧
        (count < 2 ^ 31 ∨ start + count = b.length) := by
  have range := word.toNat_lt
  rw [getUstring_inside _ inside, toInt32_toInt64, value]
  obtain ⟨len, same, sign⟩ : ∃ len : Int, (count : Int).bmod (2 ^ 32) = len ∧
      (count % 2 ^ 32 < 2 ^ 31 ∧ len = (count % 2 ^ 32 : Nat) ∨
        2 ^ 31 ≤ count % 2 ^ 32 ∧ len = (count % 2 ^ 32 : Nat) - 2 ^ 32) := by
    refine ⟨_, rfl, ?_⟩
    rw [Int.bmod_def]
    omega
  rw [same]
  have size : sizeT len = (len % 2 ^ 64).toNat := rfl
  have bound := advance_lt start len
  have moved : advance start len = ((start + len) % 2 ^ 32).toNat := rfl
  constructor
  · rintro ⟨_, _, same, _, length, stop, room, _⟩
    cases same
    rw [List.length_take, List.length_drop] at length
    refine ⟨by omega, by omega, ?_⟩
    by_cases small : count < 2 ^ 31
    · exact .inl small
    · -- the `int` is negative, and the rest of the buffer is read
      omega
  · rintro ⟨room, small, exact⟩
    refine ⟨count, start, rfl, ?_, ?_, by omega, by omega, by omega⟩
    · rcases sign with ⟨positive, _⟩ | ⟨negative, _⟩
      · have whole : sizeT len = count := by omega
        rw [whole]
      · rw [List.take_of_length_le, List.take_of_length_le]
        · rw [List.length_drop]
          omega
        · rw [List.length_drop]
          omega
    · rw [List.length_take, List.length_drop]
      omega

/-- A length-prefixed string is read as it was declared exactly when it is complete. -/
theorem contained_getVarUstringB (inside : i ≤ b.length) (cursor : i < 2 ^ 32) :
    Contained b i (declared b i) (some (getVarUstringB b i)) ↔ Complete b i := by
  unfold Complete
  cases found : declared b i with
  | none =>
      by_cases short : b.length < 2 ^ 32
      · have cut : getVarUstringB b i = .error readFailure :=
          Cursor.bind_of_error (getVarIntB_cut found short)
        rw [cut]
        exact iff_of_true (by simp [Contained, readFailure]) short
      · obtain ⟨value, stop, read, _⟩ :=
          Endless.getVarUstringB (Nat.le_of_not_lt short) i cursor
        rw [read]
        exact iff_of_false (by simp [Contained]) short
  | some field =>
      obtain ⟨count, start⟩ := field
      obtain ⟨before, within⟩ := declared_start inside found
      by_cases small : start < 2 ^ 32
      · obtain ⟨word, length, value⟩ := getVarIntB_declared found small
        have text : getVarUstringB b i = getUstring word.toInt64.toInt32.toInt b start :=
          Cursor.bind_of_ok length
        rw [text]
        exact contained_declared word value before within
      · have long : 2 ^ 32 ≤ b.length := by omega
        obtain ⟨value, stop, read, bound⟩ := Endless.getVarUstringB long i cursor
        rw [read]
        constructor
        · rintro ⟨_, _, same, _, _, moved, _⟩
          cases same
          omega
        · rintro ⟨_, low, _⟩
          omega

end Contained

/-- Each of the four readers either throws or reads the field as it was requested or
declared, under exactly these conditions. -/
theorem readStrings_contained_iff (b : UString) (i : UInt32) (len : Int32)
    (inside : i.toNat ≤ b.length) :
    (Contained b i.toNat (requested len.toInt i.toNat) (getString len.toInt b i.toNat) ↔
      0 ≤ len.toInt ∧ i.toNat + len.toInt ≤ b.length ∧ i.toNat + len.toInt < 2 ^ 32) ∧
    (Contained b i.toNat (requested len.toInt i.toNat) (some (getUstring len.toInt b i.toNat)) ↔
      0 ≤ len.toInt ∧ i.toNat + len.toInt ≤ b.length ∧ i.toNat + len.toInt < 2 ^ 32) ∧
    (Contained b i.toNat (declared b i.toNat) (getVarStringB b i.toNat) ↔
      Complete b i.toNat) ∧
    (Contained b i.toNat (declared b i.toNat) (some (getVarUstringB b i.toNat)) ↔
      Complete b i.toNat) := by
  have text := contained_getUstring inside len.toInt_lt
  have prefixed := contained_getVarUstringB inside i.toNat_lt
  refine ⟨?_, text, ?_, prefixed⟩
  · rw [getString, contained_asString fun _ _ => getUstring_cursor]
    exact text
  · rw [getVarStringB, contained_asString fun _ _ => getVarUstringB_cursor]
    exact prefixed

theorem readStrings_contained_iff_sample :
    (Contained [2, 7, 8] 0 (requested 2 0) (getString 2 [2, 7, 8] 0) ↔
      (0 : Int) ≤ 2 ∧ ((0 : Nat) : Int) + 2 ≤ 3 ∧ ((0 : Nat) : Int) + 2 < 2 ^ 32) ∧
    (Contained [2, 7, 8] 0 (requested 2 0) (some (getUstring 2 [2, 7, 8] 0)) ↔
      (0 : Int) ≤ 2 ∧ ((0 : Nat) : Int) + 2 ≤ 3 ∧ ((0 : Nat) : Int) + 2 < 2 ^ 32) ∧
    (Contained [2, 7, 8] 0 (declared [2, 7, 8] 0) (getVarStringB [2, 7, 8] 0) ↔
      Complete [2, 7, 8] 0) ∧
    (Contained [2, 7, 8] 0 (declared [2, 7, 8] 0) (some (getVarUstringB [2, 7, 8] 0)) ↔
      Complete [2, 7, 8] 0) :=
  readStrings_contained_iff [2, 7, 8] 0 2 (by decide)

/-- Five bytes are asked for or declared where there are two: the two are returned, and the
cursor moves behind the end of the buffer. -/
theorem not_contained_sample :
    getUstring 5 [1, 2] 0 = .ok ([1, 2], 5) ∧
    ¬Contained [1, 2] 0 (requested 5 0) (some (getUstring 5 [1, 2] 0)) ∧
    ¬Contained [1, 2] 0 (requested 5 0) (getString 5 [1, 2] 0) ∧
    getVarUstringB [5, 1, 2] 0 = .ok ([1, 2], 6) ∧
    ¬Contained [5, 1, 2] 0 (declared [5, 1, 2] 0) (some (getVarUstringB [5, 1, 2] 0)) ∧
    ¬Contained [5, 1, 2] 0 (declared [5, 1, 2] 0) (getVarStringB [5, 1, 2] 0) := by
  have cut : ¬Contained [1, 2] 0 (requested 5 0) (some (getUstring 5 [1, 2] 0)) := by
    rw [contained_getUstring (by decide) (by decide)]
    decide
  have short : ¬Contained [5, 1, 2] 0 (declared [5, 1, 2] 0)
      (some (getVarUstringB [5, 1, 2] 0)) := by
    rw [contained_getVarUstringB (by decide) (by decide)]
    decide
  refine ⟨rfl, cut, ?_, rfl, short, ?_⟩
  · rw [getString, contained_asString fun _ _ => getUstring_cursor]
    exact cut
  · rw [getVarStringB, contained_asString fun _ _ => getVarUstringB_cursor]
    exact short

end BitMRC.UString

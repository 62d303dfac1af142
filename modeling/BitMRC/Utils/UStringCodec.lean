import BitMRC.Utils.UString

/-!
# Writers and readers of `ustring` agree

Each writer appends a block of bytes that does not depend on what the string
held before, and the matching reader, placed in front of that block, returns the
written value and stops directly behind it.
-/

namespace BitMRC.UString

open Foundation

/-! ## Writers append -/

theorem appendInt8_eq (s : UString) (i : UInt8) : appendInt8 s i = s ++ appendInt8 [] i := rfl

theorem appendInt16_eq (s : UString) (i : Int16) :
    appendInt16 s i = s ++ appendInt16 [] i := by
  simp [appendInt16, appendInt8]

theorem appendInt32_eq (s : UString) (i : Int32) :
    appendInt32 s i = s ++ appendInt32 [] i := by
  simp [appendInt32, appendInt8]

theorem appendInt64_eq (s : UString) (i : Int64) :
    appendInt64 s i = s ++ appendInt64 [] i := by
  simp [appendInt64, appendInt8]

theorem appendVarIntB_eq (s : UString) (i : UInt64) :
    appendVarIntB s i = s ++ appendVarIntB [] i := by
  unfold appendVarIntB
  split
  · rfl
  split
  · rw [appendInt16_eq, appendInt16_eq (appendInt8 [] 253)]
    simp [appendInt8]
  split
  · rw [appendInt32_eq, appendInt32_eq (appendInt8 [] 254)]
    simp [appendInt8]
  split
  · rw [appendInt64_eq, appendInt64_eq (appendInt8 [] 255)]
    simp [appendInt8]
  · simp

theorem appendVarUstringB_eq (s str : UString) :
    appendVarUstringB s str = s ++ appendVarUstringB [] str := by
  rw [appendVarUstringB, appendVarIntB_eq, appendVarUstringB, List.append_assoc]

@[simp] theorem appendInt16_length (i : Int16) : (appendInt16 [] i).length = 2 := rfl

@[simp] theorem appendInt32_length (i : Int32) : (appendInt32 [] i).length = 4 := rfl

@[simp] theorem appendInt64_length (i : Int64) : (appendInt64 [] i).length = 8 := rfl

/-- A `VarInt_B` takes one, three, five or nine bytes. -/
theorem appendVarIntB_length_le (i : UInt64) : (appendVarIntB [] i).length ≤ 9 := by
  unfold appendVarIntB
  repeat' split
  all_goals simp [appendInt8, appendInt16, appendInt32, appendInt64]

theorem appendVarIntB_length_pos (i : UInt64) : 0 < (appendVarIntB [] i).length := by
  unfold appendVarIntB
  split
  · simp [appendInt8]
  split
  · rw [appendInt16_eq]; simp
  split
  · rw [appendInt32_eq]; simp
  split
  · rw [appendInt64_eq]; simp
  · simp only [UInt64.lt_iff_toNat_lt, UInt64.le_iff_toNat_le] at *
    simp at *
    omega

/-! ## Cursor arithmetic -/

theorem advance_of_lt {i n : Nat} (short : i + n < 2 ^ 32) : advance i n = i + n := by
  unfold advance
  omega

theorem sizeT_natCast {n : Nat} (short : n < 2 ^ 64) : sizeT n = n := by
  unfold sizeT
  omega

theorem toInt_of_lt {n : Nat} (short : n < 2 ^ 31) : toInt n = n := by
  unfold toInt
  rw [Int.bmod_def]
  omega

/-! ## Fixed-width integers -/

section Limit

variable {limit : Nat}

/-- The end of a reader that packs the bytes it has read. -/
theorem passes_return {α : Type} {packed value : α} (equal : packed = value) :
    Cursor.Passes limit (pure packed : Reader α) [] value :=
  equal ▸ Cursor.Passes.pure limit packed

theorem decodes_return {α : Type} {packed value : α} (equal : packed = value) :
    Cursor.Decodes limit (pure packed : Reader α) [] value :=
  (passes_return equal).decodes

variable [CursorLimit limit]

/-- The basic reader, in front of the byte it returns. -/
theorem getInt8_passes (byte : UInt8) : Cursor.Passes limit getInt8 [byte] byte := by
  intro before after short
  have fits : limit ≤ 2 ^ 32 := CursorLimit.le
  have inside : before.length < (before ++ ([byte] ++ after)).length := by
    simp
  have moved : advance before.length 1 = before.length + 1 := by
    rw [List.length_singleton] at short
    exact_mod_cast advance_of_lt (n := 1) (by omega)
  simp [getInt8, moved]

theorem getInt8_decodes (byte : UInt8) : Cursor.Decodes limit getInt8 [byte] byte :=
  (getInt8_passes byte).decodes

/-- A reader that starts with one byte, in front of that byte. -/
theorem passes_cons {α : Type} {next : UInt8 → Reader α} {byte : UInt8}
    {rest : UString} {value : α}
    (tail : Cursor.Passes limit (next byte) rest value) :
    Cursor.Passes limit (getInt8 >>= next) (byte :: rest) value :=
  (getInt8_passes byte).bind tail

theorem decodes_cons {α : Type} {next : UInt8 → Reader α} {byte : UInt8}
    {rest : UString} {value : α}
    (tail : Cursor.Decodes limit (next byte) rest value) :
    Cursor.Decodes limit (getInt8 >>= next) (byte :: rest) value :=
  (getInt8_decodes byte).bind tail

/-- A 16-bit word is put together again from its two bytes. -/
theorem word16_eq (x : UInt16) :
    ((x >>> 8).toUInt8.toUInt16 <<< 8) + x.toUInt8.toUInt16 = x := by
  apply UInt16.toNat_inj.mp
  have range := x.toNat_lt
  simp [Nat.shiftLeft_eq, Nat.shiftRight_eq_div_pow]
  omega

theorem word32_eq (x : UInt32) :
    ((x >>> 24).toUInt8.toUInt32 <<< 24) + ((x >>> 16).toUInt8.toUInt32 <<< 16) +
      ((x >>> 8).toUInt8.toUInt32 <<< 8) + x.toUInt8.toUInt32 = x := by
  apply UInt32.toNat_inj.mp
  have range := x.toNat_lt
  simp [Nat.shiftLeft_eq, Nat.shiftRight_eq_div_pow]
  omega

theorem word64_eq (x : UInt64) :
    ((x >>> 56).toUInt8.toUInt64 <<< 56) + ((x >>> 48).toUInt8.toUInt64 <<< 48) +
      ((x >>> 40).toUInt8.toUInt64 <<< 40) + ((x >>> 32).toUInt8.toUInt64 <<< 32) +
      ((x >>> 24).toUInt8.toUInt64 <<< 24) + ((x >>> 16).toUInt8.toUInt64 <<< 16) +
      ((x >>> 8).toUInt8.toUInt64 <<< 8) + x.toUInt8.toUInt64 = x := by
  apply UInt64.toNat_inj.mp
  have range := x.toNat_lt
  simp [Nat.shiftLeft_eq, Nat.shiftRight_eq_div_pow]
  omega

/-- The values that fit into the shorter layouts of a `VarInt_B`. -/
theorem toUInt8_lt {v : UInt64} (small : v.toNat < 253) : v.toUInt8 < 253 := by
  simp only [UInt8.lt_iff_toNat_lt]
  simp
  omega

theorem word8_toUInt64 {v : UInt64} (small : v.toNat < 253) : v.toUInt8.toUInt64 = v := by
  apply UInt64.toNat_inj.mp
  simp
  omega

theorem word16_toUInt64 {v : UInt64} (small : v.toNat < 65536) :
    (v.toUInt16 >>> 8).toUInt8.toUInt64 <<< 8 + v.toUInt16.toUInt8.toUInt64 = v := by
  apply UInt64.toNat_inj.mp
  simp [Nat.shiftLeft_eq, Nat.shiftRight_eq_div_pow]
  omega

theorem word32_toUInt64 {v : UInt64} (small : v.toNat < 4294967296) :
    (((v.toUInt32 >>> 24).toUInt8.toUInt32 <<< 24) +
      ((v.toUInt32 >>> 16).toUInt8.toUInt32 <<< 16) +
      ((v.toUInt32 >>> 8).toUInt8.toUInt32 <<< 8) + v.toUInt32.toUInt8.toUInt32).toUInt64 = v := by
  rw [word32_eq]
  apply UInt64.toNat_inj.mp
  simp
  omega

theorem getInt16_passes (i : Int16) :
    Cursor.Passes limit getInt16 (appendInt16 [] i) i :=
  passes_cons (passes_cons (passes_return (congrArg UInt16.toInt16 (word16_eq _))))

theorem getInt32_passes (i : Int32) :
    Cursor.Passes limit getInt32 (appendInt32 [] i) i :=
  passes_cons (passes_cons (passes_cons (passes_cons
    (passes_return (congrArg UInt32.toInt32 (word32_eq _))))))

theorem getInt64_passes (i : Int64) :
    Cursor.Passes limit getInt64 (appendInt64 [] i) i :=
  passes_cons (passes_cons (passes_cons (passes_cons
    (passes_cons (passes_cons (passes_cons (passes_cons
      (passes_return (congrArg UInt64.toInt64 (word64_eq _))))))))))

theorem getInt16_decodes (i : Int16) :
    Cursor.Decodes limit getInt16 (appendInt16 [] i) i :=
  (getInt16_passes i).decodes

theorem getInt32_decodes (i : Int32) :
    Cursor.Decodes limit getInt32 (appendInt32 [] i) i :=
  (getInt32_passes i).decodes

theorem getInt64_decodes (i : Int64) :
    Cursor.Decodes limit getInt64 (appendInt64 [] i) i :=
  (getInt64_passes i).decodes

/-! ## Variable-width integers -/

/-- In front of a byte, `getVarInt_B` reads that byte first. -/
theorem getVarIntB_of_inside {s : UString} {i : Nat} (inside : i < s.length) :
    getVarIntB s i = (getInt8 >>= getVarIntBTail) s i := by
  rw [getVarIntB, if_neg (Nat.not_le.mpr inside)]

theorem getVarIntB_passes_of_tail {first : UInt8} {rest : UString} {value : Int64}
    (tail : Cursor.Passes limit (getVarIntBTail first) rest value) :
    Cursor.Passes limit getVarIntB (first :: rest) value := by
  intro before after short
  have inside : before.length < (before ++ (first :: rest ++ after)).length := by
    simp
  rw [getVarIntB_of_inside inside]
  exact passes_cons tail before after short

theorem getVarIntB_decodes_of_tail {first : UInt8} {rest : UString} {value : Int64}
    (tail : Cursor.Decodes limit (getVarIntBTail first) rest value) :
    Cursor.Decodes limit getVarIntB (first :: rest) value := by
  intro before after short
  have inside : before.length < (before ++ (first :: rest ++ after)).length := by
    simp
  rw [getVarIntB_of_inside inside]
  exact decodes_cons tail before after short

/-- The four layouts of a `VarInt_B`, by the size of the value. -/
theorem appendVarIntB_cases (v : UInt64) :
    (v.toNat < 253 ∧ appendVarIntB [] v = [v.toUInt8]) ∨
    (253 ≤ v.toNat ∧ v.toNat < 65536 ∧
      appendVarIntB [] v = 253 :: appendInt16 [] v.toUInt16.toInt16) ∨
    (65536 ≤ v.toNat ∧ v.toNat < 4294967296 ∧
      appendVarIntB [] v = 254 :: appendInt32 [] v.toUInt32.toInt32) ∨
    (4294967296 ≤ v.toNat ∧ appendVarIntB [] v = 255 :: appendInt64 [] v.toInt64) := by
  unfold appendVarIntB
  simp only [UInt64.lt_iff_toNat_lt, UInt64.le_iff_toNat_le, UInt64.reduceToNat]
  split
  next small => exact .inl ⟨small, rfl⟩
  split
  next medium => exact .inr (.inl ⟨medium.1, medium.2, rfl⟩)
  split
  next large => exact .inr (.inr (.inl ⟨large.1, large.2, rfl⟩))
  split
  next huge => exact .inr (.inr (.inr ⟨huge, rfl⟩))
  omega

theorem getVarIntB_passes (v : UInt64) :
    Cursor.Passes limit getVarIntB (appendVarIntB [] v) v.toInt64 := by
  rcases appendVarIntB_cases v with ⟨small, bytes⟩ | ⟨low, high, bytes⟩ |
    ⟨low, high, bytes⟩ | ⟨low, bytes⟩ <;> rw [bytes] <;> apply getVarIntB_passes_of_tail
  · rw [getVarIntBTail, if_pos (toUInt8_lt small)]
    exact passes_return (congrArg UInt64.toInt64 (word8_toUInt64 small))
  · exact passes_cons (passes_cons (passes_return
      (congrArg UInt64.toInt64 (word16_toUInt64 high))))
  · exact passes_cons (passes_cons (passes_cons (passes_cons (passes_return
      (congrArg UInt64.toInt64 (word32_toUInt64 high))))))
  · exact getInt64_passes v.toInt64

theorem getVarIntB_decodes (v : UInt64) :
    Cursor.Decodes limit getVarIntB (appendVarIntB [] v) v.toInt64 :=
  (getVarIntB_passes v).decodes

/-! ## Strings -/

/-- `getUstring(len)` in front of exactly `len` bytes. -/
theorem getUstring_passes {len : Int} {bytes : UString} (equal : len = bytes.length) :
    Cursor.Passes limit (getUstring len) bytes bytes := by
  subst equal
  intro before after short
  have fits : limit ≤ 2 ^ 32 := CursorLimit.le
  have size : sizeT bytes.length = bytes.length := by
    apply sizeT_natCast
    omega
  have moved : advance before.length bytes.length = before.length + bytes.length := by
    apply advance_of_lt
    omega
  have inside : ¬(before.length + (bytes.length + after.length) < before.length) := by
    omega
  simp [getUstring, substr, size, moved, inside]

theorem getUstring_decodes (bytes : UString) :
    Cursor.Decodes limit (getUstring bytes.length) bytes bytes :=
  (getUstring_passes rfl).decodes

/-- The same with the length given as a literal of the source. -/
theorem getUstring_decodes_of_length (len : Int) (bytes : UString)
    (equal : len = bytes.length) :
    Cursor.Decodes limit (getUstring len) bytes bytes :=
  (getUstring_passes equal).decodes

end Limit

/-- A length below `2^31` survives the way `size_t → uint64_t → int64_t → int`. -/
theorem length_toInt32 {n : Nat} (short : n < intLimit) :
    (UInt64.ofNat n).toInt64.toInt32.toInt = n := by
  simp only [intLimit] at short
  have word : (UInt64.ofNat n).toInt64.toInt = n := by
    rw [UInt64.toInt64_ofNat', Int64.toInt_ofNat_of_lt (by omega)]
  rw [Int64.toInt_toInt32, word, Int.bmod_def]
  omega

theorem getVarUstringB_passes {limit : Nat} [CursorLimit limit] {str : UString}
    (short : str.length < intLimit) :
    Cursor.Passes limit getVarUstringB (appendVarUstringB [] str) str :=
  (getVarIntB_passes _).bind (getUstring_passes (length_toInt32 short))

theorem getVarUstringB_decodes (str : UString) :
    Cursor.Decodes intLimit getVarUstringB (appendVarUstringB [] str) str := by
  intro before after short
  have small : str.length < intLimit := by
    simp only [appendVarUstringB, List.length_append] at short
    omega
  exact (getVarUstringB_passes small).decodes before after short

/-- `getRest` returns what lies in front of it. -/
theorem getRest_at {s rest : UString} {i : Nat} (short : s.length < intLimit)
    (here : Cursor.At s i rest) : getRest s i = .ok (rest, s.length) := by
  obtain ⟨inside, drop⟩ := here
  have modulo : s.length % 2 ^ 32 = s.length := by
    simp only [intLimit] at short
    omega
  rw [getRest, substr, if_neg (by omega), drop, List.take_of_length_le]
  · simp only [modulo]
  · simp [← drop]

end BitMRC.UString

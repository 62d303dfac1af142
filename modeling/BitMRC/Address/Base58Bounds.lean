import BitMRC.Address.RoundTrip
import BitMRC.Foundation.CheckedArray
import BitMRC.Utils.UStringBounds

/-!
# Memory accesses of `loadAddr`

`b58tobin` and `loadAddr` once more, with every access to `b58digits_map` and to the 100
bytes of `retu` checked.  They compute what the models above them compute, so that these
say for which address strings every access is inside and nothing is thrown.
-/

namespace BitMRC

open Foundation CheckedArray UString

/-! ## Checked accesses -/

/-- `b58digits_map[byte]`. -/
def mapEntry (byte : UInt8) : Except Exn Int := fetch .undefined b58digitsMap byte.toNat

/-- The loop that counts leading zeros; `zerocount` is an `unsigned`. -/
def countZeros : UInt32 → UString → Except Exn (UInt32 × UString)
  | zerocount, [] => .ok (zerocount, [])
  | zerocount, byte :: rest => do
      if (← mapEntry byte) = 0 then
        countZeros (zerocount + 1) rest
      else
        return (zerocount, byte :: rest)

/-- The main loop of `b58tobin`. -/
def addDigits (bytesleft : Nat) : List Nat → UString → Except Exn (Option (List Nat))
  | outi, [] => .ok (some outi)
  | outi, byte :: rest => do
      if byte &&& 0x80 ≠ 0 then
        return none
      else if (← mapEntry byte) = -1 then
        return none
      else
        let c := (← mapEntry byte).toNat
        let (outi', c) := mulAdd (2 ^ 32) 58 outi c
        if c ≠ 0 then
          return none
        else if bytesleft ≠ 0 ∧ 2 ^ (8 * bytesleft) ≤ outi'.getLastD 0 then
          return none
        else
          addDigits bytesleft outi' rest

/-- `b58tobin` into `retu`: the array behind it and the size; `size_t` wraps around. -/
def b58tobinInto (retu : UString) (binsz : Nat) (b58 : UString) :
    Except Exn (Option (UString × Nat)) := do
  let outisz := (binsz + 3) / 4
  let (zerocount, digits) ← countZeros 0 (b58.takeWhile (· ≠ 0))
  match ← addDigits (binsz % 4) (List.replicate outisz 0) digits with
  | none => return none
  | some outi =>
      let retu ← storeAll .undefined retu 0 (wordBytes binsz outi)
      let lead ← countWhile .undefined (· = 0) retu binsz 0
      let size := binsz - lead + zerocount.toNat
      let j := sizeT (binsz - size)
      let retu ← copyFrom .undefined (fun i => (j + i) % 2 ^ 64) retu binsz 0
      return some (retu, size)

namespace PubAddr

/-- `loadAddr`; `retu` is what its buffer holds before. -/
def loadAddrInto (platform : Platform) (self : PubAddr) (retu : Block 100) (address : UString) :
    Except Exn (Bool × PubAddr) := do
  let bm ← (getUstring 3).value address 0
  let i := if bm = addressPrefix then 3 else 0
  let rest ← getRest.value address i
  match ← b58tobinInto retu.toUString 50 rest with
  | none => return (false, self)
  | some (retu, size2) =>
      let retu ← CheckedArray.store .undefined retu size2 0
      let decoded ← fetchAll .undefined retu size2 0
      match ← checkedBody platform decoded with
      | none => return (false, self)
      | some body => return loadBody platform self address body

end PubAddr

/-! ## The table -/

theorem mapEntry_of_lt {byte : UInt8} (ascii : byte.toNat < 128) :
    mapEntry byte = .ok (b58Digit byte) := by
  have inside : byte.toNat < b58digitsMap.length := ascii
  rw [mapEntry, fetch, b58Digit, List.getD_eq_getElem?_getD, List.getElem?_eq_getElem inside]
  rfl

theorem mapEntry_of_le {byte : UInt8} (high : 128 ≤ byte.toNat) :
    mapEntry byte = .error .undefined :=
  fetch_of_le high

/-- The bit that `b58tobin` tests tells whether the table has the byte. -/
theorem and_high_eq_zero (byte : UInt8) : byte &&& 0x80 = 0 ↔ byte.toNat < 128 := by
  have all : ∀ n : Fin 256, UInt8.ofNat n &&& 0x80 = 0 ↔ (n : Nat) < 128 := by decide +kernel
  have this := all ⟨byte.toNat, byte.toNat_lt⟩
  simpa using this

theorem addDigits_eq (bytesleft : Nat) (outi : List Nat) (text : UString) :
    addDigits bytesleft outi text = .ok (decodeDigits bytesleft outi text) := by
  induction text generalizing outi with
  | nil => rfl
  | cons byte rest ih =>
      rw [addDigits, decodeDigits]
      by_cases ascii : byte.toNat < 128
      · rw [if_neg (not_not_intro ((and_high_eq_zero byte).mpr ascii)),
          if_neg (not_not_intro ((and_high_eq_zero byte).mpr ascii)), mapEntry_of_lt ascii]
        simp only [bind, Except.bind, ih]
        by_cases invalid : b58Digit byte = -1
        · rw [if_pos invalid, if_pos invalid]
          rfl
        · rw [if_neg invalid, if_neg invalid]
          split
          next => rfl
          next =>
            split
            next => rfl
            next => rfl
      · have high : byte &&& 0x80 ≠ 0 := fun zero => ascii ((and_high_eq_zero byte).mp zero)
        rw [if_pos high, if_pos high]
        rfl

/-- Only `1` is the digit zero. -/
theorem eq_of_b58Digit_eq_zero {byte : UInt8} (zero : b58Digit byte = 0) : byte = 49 := by
  have all : ∀ n : Fin 256, b58Digit (UInt8.ofNat n) = 0 → UInt8.ofNat n = 49 := by
    decide +kernel
  have this := all ⟨byte.toNat, byte.toNat_lt⟩
  simp only [UInt8.ofNat_toNat] at this
  exact this zero

/-- Counting stops at the first character that is not `1`, which must be in the table. -/
theorem countOnes_cases (text : UString) :
    (∀ byte ∈ (text.dropWhile (· = 49)).head?, byte.toNat < 128) ∧
      countOnes text = .ok ((text.takeWhile (· = 49)).length % 2 ^ 32, text.dropWhile (· = 49)) ∨
    (¬∀ byte ∈ (text.dropWhile (· = 49)).head?, byte.toNat < 128) ∧
      countOnes text = .error .undefined := by
  induction text with
  | nil => exact .inl ⟨by simp, rfl⟩
  | cons byte rest ih =>
      by_cases one : byte = 49
      · subst one
        have ascii : ¬(128 ≤ (49 : UInt8).toNat) := by decide
        have zero : b58Digit 49 = 0 := by decide
        rw [countOnes, if_neg ascii, if_pos zero, List.dropWhile_cons_of_pos (by decide),
          List.takeWhile_cons_of_pos (by decide), List.length_cons]
        rcases ih with ⟨covered, run⟩ | ⟨missing, run⟩
        · refine .inl ⟨covered, ?_⟩
          rw [run]
          simp only [Nat.mod_add_mod]
        · refine .inr ⟨missing, ?_⟩
          rw [run]
      · rw [countOnes, List.dropWhile_cons_of_neg (by simpa using one),
          List.takeWhile_cons_of_neg (by simpa using one)]
        by_cases ascii : byte.toNat < 128
        · have nonzero : b58Digit byte ≠ 0 := fun zero => one (eq_of_b58Digit_eq_zero zero)
          refine .inl ⟨by simpa using ascii, ?_⟩
          rw [if_neg (Nat.not_le.mpr ascii), if_neg nonzero]
          rfl
        · exact .inr ⟨by simpa using ascii, if_pos (Nat.le_of_not_lt ascii)⟩

theorem countZeros_eq (zerocount : UInt32) (text : UString) :
    countZeros zerocount text =
      match countOnes text with
      | .ok (count, others) => .ok (zerocount + UInt32.ofNat count, others)
      | .error failure => .error failure := by
  induction text generalizing zerocount with
  | nil => simp [countZeros, countOnes]
  | cons byte rest ih =>
      rw [countZeros, countOnes]
      by_cases ascii : byte.toNat < 128
      · rw [mapEntry_of_lt ascii, if_neg (Nat.not_le.mpr ascii)]
        simp only [bind, Except.bind]
        by_cases zero : b58Digit byte = 0
        · rw [if_pos zero, if_pos zero, ih]
          cases countOnes rest with
          | error failure => rfl
          | ok found =>
              obtain ⟨count, others⟩ := found
              have next : UInt32.ofNat ((count + 1) % 2 ^ 32) = 1 + UInt32.ofNat count := by
                rw [UInt32.ofNat_mod_size, UInt32.ofNat_add, UInt32.add_comm]
                rfl
              simp only [next, UInt32.add_assoc]
        · rw [if_neg zero, if_neg zero]
          simp [pure, Except.pure]
      · rw [mapEntry_of_le (Nat.le_of_not_lt ascii), if_pos (Nat.le_of_not_lt ascii)]
        rfl

theorem decodeDigits_length {bytesleft : Nat} {outi outi' : List Nat} {text : UString}
    (decoded : decodeDigits bytesleft outi text = some outi') : outi'.length = outi.length := by
  induction text generalizing outi with
  | nil =>
      cases decoded
      rfl
  | cons byte rest ih =>
      rw [decodeDigits] at decoded
      split at decoded
      next => cases decoded
      next =>
        split at decoded
        next => cases decoded
        next =>
          simp only at decoded
          split at decoded
          next => cases decoded
          next =>
            split at decoded
            next => cases decoded
            next => rw [ih decoded, mulAdd_length]

theorem wordBytes_length {outi : List Nat} (words : outi.length = 13) :
    (wordBytes 50 outi).length = 50 := by
  have bytes : (outi.flatMap (lowDigits 256 4)).length = 4 * outi.length := by
    clear words
    induction outi with
    | nil => rfl
    | cons word rest ih =>
        rw [List.flatMap_cons, List.length_append, ih, lowDigits_length, List.length_cons]
        omega
  rw [wordBytes, List.length_reverse, List.length_map, List.length_take, bytes, words]
  rfl

/-! ## The buffer -/

/-- The decoded bytes are moved to the front of `retu`, unless more zeros are to be put in
front of them than there are. -/
theorem copyFrom_retu {bin after : UString} (fifty : bin.length = 50) (behind : after.length = 50)
    {lead zerocount : Nat} (leadLe : lead ≤ 50) (word : zerocount < 2 ^ 32) :
    (lead < zerocount ∧ copyFrom (ε := Exn) .undefined
        (fun i => (sizeT (50 - (50 - lead + zerocount : Nat)) + i) % 2 ^ 64) (bin ++ after) 50 0 =
      .error .undefined) ∨
    ∃ rest : UString, zerocount ≤ lead ∧
      50 - lead + zerocount = (bin.drop (lead - zerocount)).length ∧
      rest.length = 50 + (lead - zerocount) ∧
      copyFrom (ε := Exn) .undefined
        (fun i => (sizeT (50 - (50 - lead + zerocount : Nat)) + i) % 2 ^ 64) (bin ++ after) 50 0 =
      .ok (bin.drop (lead - zerocount) ++ rest) := by
  by_cases few : zerocount ≤ lead
  · have shift : sizeT (50 - (50 - lead + zerocount : Nat)) = lead - zerocount := by
      unfold sizeT
      omega
    have values : (bin.drop (lead - zerocount) ++ after.take (lead - zerocount)).length = 50 := by
      rw [List.length_append, List.length_drop, List.length_take]
      omega
    have gap : (bin.take (lead - zerocount)).length = lead - zerocount := by
      rw [List.length_take]
      omega
    obtain ⟨rest, length, copied⟩ := @copyFrom_append UInt8 Exn .undefined
      (fun i => (sizeT (50 - (50 - lead + zerocount : Nat)) + i) % 2 ^ 64) []
      (bin.take (lead - zerocount)) (bin.drop (lead - zerocount) ++ after.take (lead - zerocount))
      (after.drop (lead - zerocount)) (by
        intro index inside
        rw [values, List.length_nil] at inside
        simp only [shift, gap]
        omega)
    refine .inr ⟨after.take (lead - zerocount) ++ rest, few, ?_, ?_, ?_⟩
    · rw [List.length_drop]
      omega
    · rw [List.length_append, List.length_take, length, gap, List.length_drop]
      omega
    · rw [values] at copied
      have split : [] ++ (bin.take (lead - zerocount) ++ (bin.drop (lead - zerocount) ++
          after.take (lead - zerocount) ++ after.drop (lead - zerocount))) = bin ++ after := by
        rw [List.nil_append, List.append_assoc, List.take_append_drop, ← List.append_assoc,
          List.take_append_drop]
      rw [split, List.nil_append, List.append_assoc] at copied
      exact copied
  · refine .inl ⟨Nat.lt_of_not_le few, ?_⟩
    have outside : (bin ++ after).length ≤
        (sizeT (50 - (50 - lead + zerocount : Nat)) + 0) % 2 ^ 64 := by
      rw [List.length_append]
      unfold sizeT
      omega
    rw [copyFrom, fetch_of_le outside]
    rfl

/-- `b58tobin` with its accesses checked does what `b58tobin` does, with the result at the
front of the buffer. -/
theorem b58tobinInto_cases (retu : Block 100) (b58 : UString) :
    (∃ failure, b58tobin 50 b58 = .error failure ∧
      b58tobinInto retu.toUString 50 b58 = .error failure) ∨
    (b58tobin 50 b58 = .ok none ∧ b58tobinInto retu.toUString 50 b58 = .ok none) ∨
    ∃ decoded rest : UString, b58tobin 50 b58 = .ok (some decoded) ∧ decoded.length ≤ 50 ∧
      decoded.length + rest.length = 100 ∧
      b58tobinInto retu.toUString 50 b58 = .ok (some (decoded ++ rest, decoded.length)) := by
  rw [b58tobin, b58tobinInto, countZeros_eq]
  rcases countOnes_cases (b58.takeWhile (· ≠ 0)) with ⟨_, counted⟩ | ⟨_, missing⟩
  · rw [counted]
    generalize (b58.takeWhile (· ≠ 0)).dropWhile (· = 49) = digits
    generalize ((b58.takeWhile (· ≠ 0)).takeWhile (· = 49)).length = ones
    simp only [bind, Except.bind, addDigits_eq]
    cases decoded : decodeDigits (50 % 4) (List.replicate ((50 + 3) / 4) 0) digits with
    | none => exact .inr (.inl ⟨rfl, rfl⟩)
    | some outi =>
        have words : outi.length = 13 := (decodeDigits_length decoded).trans (by simp)
        have fifty := wordBytes_length words
        have old : (retu.toUString.take 50).length = (wordBytes 50 outi).length := by
          rw [fifty, List.length_take, retu.toUString_length]
          rfl
        have behind : (retu.toUString.drop 50).length = 50 := by
          rw [List.length_drop, retu.toUString_length]
        have stored := @storeAll_append UInt8 Exn .undefined [] _ _ old (retu.toUString.drop 50)
        have leading := @countWhile_append UInt8 Exn .undefined (· = 0) [] (wordBytes 50 outi)
          (retu.toUString.drop 50)
        rw [List.nil_append, List.take_append_drop] at stored
        rw [List.nil_append, fifty] at leading
        simp only [List.nil_append, List.length_nil] at stored leading
        have leadLe : ((wordBytes 50 outi).takeWhile (· = 0)).length ≤ 50 :=
          Nat.le_trans (List.takeWhile_sublist _).length_le (Nat.le_of_eq fifty)
        have word : (0 + UInt32.ofNat (ones % 2 ^ 32)).toNat = ones % 2 ^ 32 := by
          rw [UInt32.zero_add, UInt32.toNat_ofNat', Nat.mod_mod]
        simp only [stored, leading, word, Nat.cast_ofNat]
        rcases copyFrom_retu fifty behind leadLe (Nat.mod_lt ones (show 0 < 2 ^ 32 by decide)) with
          ⟨many, failed⟩ | ⟨rest, few, size, length, copied⟩
        · rw [if_pos many, failed]
          exact .inl ⟨.undefined, rfl, rfl⟩
        · rw [if_neg (Nat.not_lt.mpr few), copied]
          refine .inr (.inr ⟨_, rest, rfl, ?_, ?_, ?_⟩)
          · rw [List.length_drop]
            omega
          · rw [List.length_drop]
            omega
          · rw [← size]
            rfl
  · rw [missing]
    exact .inl ⟨.undefined, rfl, rfl⟩

/-- With every access checked `loadAddr` does what `loadAddr` does. -/
theorem PubAddr.loadAddrInto_eq (platform : Platform) (self : PubAddr) (retu : Block 100)
    (address : UString) :
    self.loadAddrInto platform retu address = self.loadAddr platform address := by
  rw [loadAddrInto, loadAddr, decodeAddress]
  cases (getUstring 3).value address 0 with
  | error failure => rfl
  | ok bm =>
      simp only [bind, Except.bind]
      cases getRest.value address (if bm = addressPrefix then 3 else 0) with
      | error failure => rfl
      | ok b58 =>
          simp only
          rcases b58tobinInto_cases retu b58 with ⟨failure, model, checked⟩ | ⟨model, checked⟩ |
            ⟨decoded, rest, model, short, total, checked⟩
          · rw [model, checked]
          · rw [model, checked]
            rfl
          · rw [model, checked]
            obtain ⟨last, more, split⟩ : ∃ last more, rest = last :: more :=
              List.exists_cons_of_ne_nil (List.ne_nil_of_length_pos (by omega))
            have stored := @store_append UInt8 Exn .undefined decoded last 0 more
            have read := @fetchAll_append UInt8 Exn .undefined [] decoded (0 :: more)
            rw [List.nil_append, List.length_nil] at read
            subst split
            cases checked' : checkedBody platform decoded with
            | error failure => simp only [stored, read, checked']
            | ok body =>
                cases body with
                | none => simp only [stored, read, checked']
                | some body => simp only [stored, read, checked']

/-! ## Values -/

/-- The number that digits of base 58 denote, behind others. -/
def base58Value (value : Nat) (digits : UString) : Nat :=
  digits.foldl (fun value byte => value * 58 + (b58Digit byte).toNat) value

theorem le_base58Value (value : Nat) (digits : UString) : value ≤ base58Value value digits := by
  induction digits generalizing value with
  | nil => exact Nat.le_refl value
  | cons byte rest ih =>
      have later := ih (value * 58 + (b58Digit byte).toNat)
      rw [base58Value, List.foldl_cons]
      rw [base58Value] at later
      omega

/-- With the most significant word the value is bounded from above. -/
theorem ofDigits_lt_getLastD {base : Nat} {digits : List Nat}
    (bounded : ∀ digit ∈ digits, digit < base) (nonempty : digits ≠ []) :
    Nat.ofDigits base digits < (digits.getLastD 0 + 1) * base ^ (digits.length - 1) := by
  induction digits with
  | nil => exact absurd rfl nonempty
  | cons digit rest ih =>
      have small := bounded digit List.mem_cons_self
      cases rest with
      | nil => simp
      | cons next more =>
          have last : (digit :: next :: more).getLastD 0 = (next :: more).getLastD 0 := by
            simp [List.getLastD]
          have below := ih (fun other member => bounded other (List.mem_cons_of_mem digit member))
            (List.cons_ne_nil next more)
          rw [last, Nat.ofDigits_cons, List.length_cons, Nat.add_sub_cancel]
          simp only [List.length_cons, Nat.add_sub_cancel] at below ⊢
          calc digit + base * Nat.ofDigits base (next :: more)
              < base * (Nat.ofDigits base (next :: more) + 1) := by
                rw [Nat.mul_succ]
                omega
            _ ≤ base * (((next :: more).getLastD 0 + 1) * base ^ more.length) :=
                Nat.mul_le_mul_left base below
            _ = ((next :: more).getLastD 0 + 1) * base ^ (more.length + 1) := by
                rw [Nat.pow_succ]
                ring

/-- One more digit is refused exactly when the value does not stay below `2^400`. -/
theorem addDigit_cases {outi : List Nat} (words : outi.length = 13) (digit : Nat) :
    (Nat.ofDigits (2 ^ 32) outi * 58 + digit < 2 ^ 400 ∧
      (mulAdd (2 ^ 32) 58 outi digit).2 = 0 ∧
      ¬2 ^ (8 * 2) ≤ (mulAdd (2 ^ 32) 58 outi digit).1.getLastD 0 ∧
      Nat.ofDigits (2 ^ 32) (mulAdd (2 ^ 32) 58 outi digit).1 =
        Nat.ofDigits (2 ^ 32) outi * 58 + digit) ∨
    (2 ^ 400 ≤ Nat.ofDigits (2 ^ 32) outi * 58 + digit ∧
      ((mulAdd (2 ^ 32) 58 outi digit).2 ≠ 0 ∨
        2 ^ (8 * 2) ≤ (mulAdd (2 ^ 32) 58 outi digit).1.getLastD 0)) := by
  have length := mulAdd_length (2 ^ 32) 58 outi digit
  rw [words] at length
  have limit : 2 ^ (8 * 2) * (2 ^ 32) ^ (13 - 1) = 2 ^ 400 := by decide +kernel
  by_cases small : Nat.ofDigits (2 ^ 32) outi * 58 + digit < 2 ^ 400
  · have room : Nat.ofDigits (2 ^ 32) outi * 58 + digit < (2 ^ 32) ^ outi.length := by
      rw [words]
      exact Nat.lt_of_lt_of_le small (by decide +kernel)
    obtain ⟨noCarry, product⟩ := mulAdd_of_lt room
    have top := getLastD_mul_le (2 ^ 32) (mulAdd (2 ^ 32) 58 outi digit).1
    rw [product, length] at top
    refine .inl ⟨small, noCarry, ?_, product⟩
    intro high
    have large := Nat.mul_le_mul_right ((2 ^ 32) ^ (13 - 1)) high
    omega
  · refine .inr ⟨Nat.le_of_not_lt small, ?_⟩
    by_contra both
    obtain ⟨noCarry, low⟩ := not_or.mp both
    have value := mulAdd_value (2 ^ 32) 58 outi digit
    have below := ofDigits_lt_getLastD (mulAdd_lt (by decide) 58 outi digit)
      (List.ne_nil_of_length_pos (Nat.lt_of_lt_of_eq (show 0 < 13 by decide) length.symm))
    rw [length] at below
    rw [not_not.mp noCarry, Nat.mul_zero, Nat.add_zero] at value
    have cut := Nat.mul_le_mul_right ((2 ^ 32) ^ (13 - 1)) (Nat.lt_of_not_le low)
    rw [value] at below
    exact small (Nat.lt_of_lt_of_le below (Nat.le_trans cut (Nat.le_of_eq limit)))

/-- The digits are added exactly when they all are in the table and their value stays below
`2^400`. -/
theorem decodeDigits_cases {outi : List Nat} (words : outi.length = 13)
    (word32 : ∀ word ∈ outi, word < 2 ^ 32) (small : Nat.ofDigits (2 ^ 32) outi < 2 ^ 400)
    (text : UString) :
    (((∀ byte ∈ text, b58Digit byte ≠ -1) ∧
        base58Value (Nat.ofDigits (2 ^ 32) outi) text < 2 ^ 400) ∧
      ∃ outi', decodeDigits 2 outi text = some outi' ∧ outi'.length = 13 ∧
        (∀ word ∈ outi', word < 2 ^ 32) ∧
        Nat.ofDigits (2 ^ 32) outi' = base58Value (Nat.ofDigits (2 ^ 32) outi) text) ∨
    (¬((∀ byte ∈ text, b58Digit byte ≠ -1) ∧
        base58Value (Nat.ofDigits (2 ^ 32) outi) text < 2 ^ 400)) ∧
      decodeDigits 2 outi text = none := by
  induction text generalizing outi with
  | nil => exact .inl ⟨⟨by simp, small⟩, outi, rfl, words, word32, rfl⟩
  | cons byte rest ih =>
      have step : base58Value (Nat.ofDigits (2 ^ 32) outi) (byte :: rest) =
          base58Value (Nat.ofDigits (2 ^ 32) outi * 58 + (b58Digit byte).toNat) rest := rfl
      rw [step, decodeDigits]
      by_cases valid : b58Digit byte = -1
      · refine .inr ⟨fun all => all.1 byte List.mem_cons_self valid, ?_⟩
        rw [if_pos valid, ite_self]
      · have ascii : ¬(byte &&& 0x80 ≠ 0) := by
          intro high
          have outside : b58digitsMap.length ≤ byte.toNat :=
            Nat.le_of_not_lt fun less => high ((and_high_eq_zero byte).mpr less)
          refine valid ?_
          rw [b58Digit, List.getD_eq_getElem?_getD, List.getElem?_eq_none outside]
          rfl
        rw [if_neg ascii, if_neg valid]
        rcases addDigit_cases words (b58Digit byte).toNat with
          ⟨below, noCarry, clear, product⟩ | ⟨large, refused⟩
        · simp only [noCarry, clear, ne_eq, not_true_eq_false, if_false, and_false]
          have words' := (mulAdd_length (2 ^ 32) 58 outi (b58Digit byte).toNat).trans words
          have later := ih words' (mulAdd_lt (by decide) 58 outi _) (by rwa [product])
          rw [product] at later
          rcases later with ⟨⟨digits, bound⟩, decoded⟩ | ⟨refused, none⟩
          · exact .inl ⟨⟨List.forall_mem_cons.mpr ⟨valid, digits⟩, bound⟩, decoded⟩
          · refine .inr ⟨fun all => refused ⟨?_, all.2⟩, none⟩
            exact fun other member => all.1 other (List.mem_cons_of_mem byte member)
        · have tooLarge : ¬base58Value
              (Nat.ofDigits (2 ^ 32) outi * 58 + (b58Digit byte).toNat) rest < 2 ^ 400 :=
            Nat.not_lt.mpr (Nat.le_trans large (le_base58Value _ rest))
          refine .inr ⟨fun all => tooLarge all.2, ?_⟩
          by_cases carry : (mulAdd (2 ^ 32) 58 outi (b58Digit byte).toNat).2 ≠ 0
          · simp only [if_pos carry]
          · simp only [if_neg carry]
            rw [if_pos ⟨by decide, refused.resolve_left carry⟩]

/-! ## Widths -/

/-- How many bytes a number needs; zero needs none. -/
def byteWidth (n : Nat) : Nat := (Nat.digits 256 n).length

/-- A number at its own width does not begin with a zero byte. -/
theorem head?_beBytes_byteWidth (n : Nat) : (beBytes (byteWidth n) n).head? ≠ some 0 := by
  have digits := @lowDigits_ofDigits 256 (Nat.digits 256 n) fun digit member =>
    Nat.digits_lt_base (by decide) member
  rw [Nat.ofDigits_digits] at digits
  rw [beBytes, byteWidth, digits, List.head?_reverse, List.getLast?_map]
  intro zero
  obtain ⟨last, found, byte⟩ := Option.map_eq_some_iff.mp zero
  have member := List.mem_of_getLast? found
  have small : last < 256 := Nat.digits_lt_base (by decide) member
  have lastZero : last = 0 := by
    have same := congrArg UInt8.toNat byte
    rwa [UInt8.toNat_ofNat_of_lt' small] at same
  have nonempty : Nat.digits 256 n ≠ [] := List.ne_nil_of_mem member
  have nonzero : n ≠ 0 := Nat.digits_ne_nil_iff_ne_zero.mp nonempty
  rw [List.getLast?_eq_some_getLast nonempty] at found
  exact Nat.getLast_digit_ne_zero 256 nonzero ((Option.some.inj found).trans lastZero)

theorem takeWhile_beBytes {n : Nat} (small : n < 256 ^ 50) :
    byteWidth n ≤ 50 ∧ ((beBytes 50 n).takeWhile (· = 0)).length = 50 - byteWidth n := by
  have width : byteWidth n ≤ 50 := (Nat.digits_length_le_iff (by decide) n).mpr small
  refine ⟨width, ?_⟩
  have fits : n < 256 ^ byteWidth n := Nat.lt_base_pow_length_digits (by decide)
  have bytes := beBytes_of_lt fits (50 - byteWidth n)
  rw [Nat.add_sub_cancel' width] at bytes
  rw [bytes, length_takeWhile_replicate_append 0 _ (head?_beBytes_byteWidth n)]

/-! ## Outcomes -/

/-- All characters behind the leading `1`s are digits, and their number fits into 50 bytes. -/
def Decodes58 (digits : UString) : Prop :=
  (∀ byte ∈ digits, b58Digit byte ≠ -1) ∧ base58Value 0 digits < 256 ^ 50

/-- The bytes that are decoded are the leading `1`s and the bytes of the number. -/
def decodedLength (text : UString) : Nat :=
  (text.takeWhile (· = 49)).length % 2 ^ 32 + byteWidth (base58Value 0 (text.dropWhile (· = 49)))

/-- The table is left, a character or the number is refused, the buffer is left, or the
bytes are there. -/
theorem b58tobin_cases {b58 text : UString} (cut : b58.takeWhile (· ≠ 0) = text) :
    ((¬∀ byte ∈ (text.dropWhile (· = 49)).head?, byte.toNat < 128) ∧
      b58tobin 50 b58 = .error .undefined) ∨
    (∀ byte ∈ (text.dropWhile (· = 49)).head?, byte.toNat < 128) ∧
      ((¬Decodes58 (text.dropWhile (· = 49)) ∧ b58tobin 50 b58 = .ok none) ∨
        Decodes58 (text.dropWhile (· = 49)) ∧
          ((50 < decodedLength text ∧ b58tobin 50 b58 = .error .undefined) ∨
            decodedLength text ≤ 50 ∧ ∃ decoded, b58tobin 50 b58 = .ok (some decoded) ∧
              decoded.length = decodedLength text)) := by
  rw [b58tobin, cut]
  rcases countOnes_cases text with ⟨covered, counted⟩ | ⟨missing, failed⟩
  · refine .inr ⟨covered, ?_⟩
    have limit : (256 : Nat) ^ 50 = 2 ^ 400 := by decide +kernel
    have zero : Nat.ofDigits (2 ^ 32) (List.replicate 13 0) = 0 := Nat.ofDigits_replicate_zero
    have run := @decodeDigits_cases (List.replicate 13 0) (by simp) (by simp)
      (by rw [zero]; decide +kernel) (text.dropWhile (· = 49))
    rw [zero, ← limit] at run
    rw [counted, decodedLength, Decodes58]
    simp only [bind, Except.bind]
    rcases run with ⟨fits, outi, decoded, words, word32, value⟩ | ⟨refused, none⟩
    · refine .inr ⟨fits, ?_⟩
      obtain ⟨width, lead⟩ := takeWhile_beBytes fits.2
      have bin := wordBytes_eq words word32
      rw [value] at bin
      rw [decoded]
      simp only [bin, lead]
      by_cases room : 50 - byteWidth (base58Value 0 (text.dropWhile (· = 49))) <
          (text.takeWhile (· = 49)).length % 2 ^ 32
      · refine .inl ⟨by omega, ?_⟩
        rw [if_pos room]
        rfl
      · refine .inr ⟨by omega, _, if_neg room, ?_⟩
        rw [List.length_drop, beBytes_length]
        omega
    · refine .inl ⟨refused, ?_⟩
      rw [none]
      rfl
  · refine .inl ⟨missing, ?_⟩
    rw [failed]
    rfl

namespace PubAddr

/-- The checksum is read when there are four bytes. -/
theorem checkedBody_cases (platform : Platform) {decoded : UString} (short : decoded.length ≤ 50) :
    (4 ≤ decoded.length ∧ ∃ body, checkedBody platform decoded = .ok body) ∨
      (decoded.length < 4 ∧ checkedBody platform decoded = .error .outOfRange) := by
  have body := getUstring_inside (toInt (((decoded.length : Int) - 4) % 2 ^ 32).toNat)
    (Nat.zero_le decoded.length)
  rw [checkedBody, Cursor.value_of_ok body]
  by_cases enough : 4 ≤ decoded.length
  · have inside : (((decoded.length : Int) - 4) % 2 ^ 32).toNat ≤ decoded.length := by omega
    refine .inl ⟨enough, ?_⟩
    rw [Cursor.value_of_ok (getUstring_inside 4 inside)]
    simp only [bind, Except.bind]
    split
    next => exact ⟨none, rfl⟩
    next => exact ⟨_, rfl⟩
  · have outside : decoded.length < (((decoded.length : Int) - 4) % 2 ^ 32).toNat := by omega
    refine .inr ⟨Nat.lt_of_not_le enough, ?_⟩
    have failed : (getUstring 4).value decoded (((decoded.length : Int) - 4) % 2 ^ 32).toNat =
        .error .outOfRange := by
      rw [Cursor.value, getUstring, substr, if_pos outside]
    rw [failed]
    rfl

/-- The characters of an address string that are decoded. -/
def base58Text (address : UString) : UString :=
  (if address.take 3 = addressPrefix then address.drop 3 else address).takeWhile (· ≠ 0)

/-- The first character behind the leading `1`s is in the table, and what can be decoded
has at least the four bytes of the checksum and at most the 50 bytes of the result. -/
def Readable (address : UString) : Prop :=
  (∀ byte ∈ ((base58Text address).dropWhile (· = 49)).head?, byte.toNat < 128) ∧
    (Decodes58 ((base58Text address).dropWhile (· = 49)) →
      4 ≤ decodedLength (base58Text address) ∧ decodedLength (base58Text address) ≤ 50)

/-- `loadAddr` stays inside its table and buffers and throws nothing if and only if the
address string is readable. -/
theorem loadAddrInto_ok_iff (platform : Platform) (self : PubAddr) (retu : Block 100)
    (address : UString) :
    (∃ result, self.loadAddrInto platform retu address = .ok result) ↔ Readable address := by
  have bm : (getUstring 3).value address 0 = .ok (address.take 3) :=
    Cursor.value_of_ok (getUstring_inside 3 (Nat.zero_le _))
  have rest : getRest.value address (if address.take 3 = addressPrefix then 3 else 0) =
      .ok (if address.take 3 = addressPrefix then address.drop 3 else address) := by
    split
    next prefixed =>
      have inside : 3 ≤ address.length := by
        have length := congrArg List.length prefixed
        simp only [List.length_take, addressPrefix, List.length_cons, List.length_nil] at length
        omega
      exact Cursor.value_of_ok (getRest_eq inside)
    next => exact Cursor.value_of_ok (getRest_eq (Nat.zero_le _))
  rw [loadAddrInto_eq, loadAddr, decodeAddress, bm]
  simp only [bind, Except.bind, rest]
  rw [Readable]
  rcases @b58tobin_cases _ (base58Text address) rfl with ⟨missing, failed⟩ | ⟨covered, outcome⟩
  · rw [failed]
    constructor
    · rintro ⟨_, ⟨⟩⟩
    · intro readable
      exact absurd readable.1 missing
  rcases outcome with ⟨refused, failed⟩ | ⟨decodes, ⟨long, failed⟩ | ⟨room, decoded, found, length⟩⟩
  · rw [failed]
    exact ⟨fun _ => ⟨covered, fun decodes => absurd decodes refused⟩, fun _ => ⟨_, rfl⟩⟩
  · rw [failed]
    constructor
    · rintro ⟨_, ⟨⟩⟩
    · intro readable
      exact absurd (readable.2 decodes).2 (Nat.not_le.mpr long)
  · rw [found]
    simp only
    rcases checkedBody_cases platform (Nat.le_trans (Nat.le_of_eq length) room) with
      ⟨enough, body, checked⟩ | ⟨few, failed⟩
    · rw [checked]
      refine ⟨fun _ => ⟨covered, fun _ => ⟨length ▸ enough, room⟩⟩, fun _ => ?_⟩
      cases body with
      | none => exact ⟨_, rfl⟩
      | some body => exact ⟨_, rfl⟩
    · rw [failed]
      constructor
      · rintro ⟨_, ⟨⟩⟩
      · intro readable
        have enough := (readable.2 decodes).1
        omega

/-- The empty string ends in `std::out_of_range`. -/
theorem not_loadAddrInto_empty : ¬∃ result, (new ⟨0, 0, 0, 0⟩).loadAddrInto Platform.sample
    (Platform.fit 100 []) [] = .ok result := by
  rintro ⟨result, loaded⟩
  cases loaded

end PubAddr

end BitMRC

import BitMRC.Address.Base58
import Mathlib.Data.List.TakeWhile

/-!
# `b58tobin` undoes `b58enc`

The encoder's inner loop stops early; on the untouched part of its array it
would only rewrite zeros, so it computes the full `mulAdd`.  The array is large
enough because `256^100 ≤ 58^138`.
-/

namespace BitMRC

open Foundation
open Nat (ofDigits)

/-! ## The encoder -/

/-- Stopping at the first untouched position with no carry changes nothing. -/
theorem carryLoop_eq {buf : List Nat} {touched carry : Nat} (within : touched ≤ buf.length)
    (zeros : buf.drop touched = List.replicate (buf.length - touched) 0)
    (fits : (mulAdd 58 256 buf carry).2 = 0) :
    ∃ steps, steps ≤ buf.length ∧
      carryLoop buf touched carry = .ok ((mulAdd 58 256 buf carry).1, steps) ∧
      (mulAdd 58 256 buf carry).1.drop steps = List.replicate (buf.length - steps) 0 := by
  induction buf generalizing touched carry with
  | nil =>
      have noTouched : touched = 0 := Nat.le_zero.mp within
      have noCarry : carry = 0 := fits
      subst noTouched noCarry
      exact ⟨0, Nat.le_refl 0, rfl, rfl⟩
  | cons digit rest ih =>
      by_cases stop : touched = 0 ∧ carry = 0
      · obtain ⟨noTouched, noCarry⟩ := stop
        subst noTouched noCarry
        simp only [List.drop_zero, Nat.sub_zero] at zeros
        have same : (mulAdd 58 256 (digit :: rest) 0).1 = digit :: rest := by
          rw [zeros, mulAdd_replicate_zero]
        exact ⟨0, Nat.zero_le _, by simp [carryLoop, same], by simpa [same] using zeros⟩
      · have zerosRest : rest.drop (touched - 1) =
            List.replicate (rest.length - (touched - 1)) 0 := by
          cases touched with
          | zero =>
              rw [List.drop_zero, Nat.sub_zero, List.length_cons, List.replicate_succ] at zeros
              simpa using (List.cons.inj zeros).2
          | succ touched => simpa using zeros
        have withinRest : touched - 1 ≤ rest.length := by
          rw [List.length_cons] at within
          omega
        have sum : carry + 256 * digit = digit * 256 + carry := by ring
        obtain ⟨steps, bound, loop, left⟩ := ih withinRest zerosRest fits
        refine ⟨steps + 1, by simpa using bound, ?_, by simpa [mulAdd] using left⟩
        rw [carryLoop, if_neg stop]
        simp only [sum, loop, mulAdd]

/-- The array after the bytes read so far holds their value. -/
theorem encodeLoop_eq {buf : List Nat} {touched : Nat} {read rest : UString}
    (within : touched ≤ buf.length)
    (zeros : buf.drop touched = List.replicate (buf.length - touched) 0)
    (value : ofDigits 58 buf = beNat read) (bounded : ∀ digit ∈ buf, digit < 58)
    (room : 256 ^ (read.length + rest.length) ≤ 58 ^ buf.length) :
    ∃ buf', encodeLoop buf touched rest = .ok buf' ∧ buf'.length = buf.length ∧
      ofDigits 58 buf' = beNat (read ++ rest) ∧ ∀ digit ∈ buf', digit < 58 := by
  induction rest generalizing buf touched read with
  | nil => exact ⟨buf, rfl, rfl, by simpa using value, bounded⟩
  | cons byte rest ih =>
      have next := beNat_append_byte read byte
      have small : beNat (read ++ [byte]) < 58 ^ buf.length := by
        refine Nat.lt_of_lt_of_le (beNat_lt _) (Nat.le_trans ?_ room)
        exact Nat.pow_le_pow_right (by decide) (by simp)
      have fits : ofDigits 58 buf * 256 + byte.toNat < 58 ^ buf.length := by
        rw [value]
        omega
      obtain ⟨noCarry, product⟩ := mulAdd_of_lt fits
      obtain ⟨steps, bound, loop, left⟩ := carryLoop_eq within zeros noCarry
      have tail := @ih (mulAdd 58 256 buf byte.toNat).1 steps (read ++ [byte])
        (by simpa using bound) (by simpa using left)
        (by rw [product, value, next]; ring) (mulAdd_lt (by decide) 256 buf byte.toNat)
        (by simpa [Nat.add_assoc, Nat.add_comm 1] using room)
      obtain ⟨buf', run, length, final, final58⟩ := tail
      exact ⟨buf', by rw [encodeLoop, loop]; exact run, by simpa using length,
        by simpa using final, final58⟩

/-- `n * 138 / 100 + 1` base-58 digits hold every number of `n` bytes. -/
theorem size_is_enough (n : Nat) : 256 ^ n ≤ 58 ^ (n * 138 / 100 + 1) := by
  have scale : 256 ^ 100 ≤ 58 ^ 138 := by decide +kernel
  have digits : n * 138 ≤ 100 * (n * 138 / 100 + 1) := by omega
  have hundredth : (256 ^ n) ^ 100 ≤ (58 ^ (n * 138 / 100 + 1)) ^ 100 :=
    calc (256 ^ n) ^ 100 = (256 ^ 100) ^ n := by rw [← Nat.pow_mul, ← Nat.pow_mul, Nat.mul_comm]
      _ ≤ (58 ^ 138) ^ n := Nat.pow_le_pow_left scale n
      _ = 58 ^ (n * 138) := by rw [← Nat.pow_mul, Nat.mul_comm]
      _ ≤ 58 ^ (100 * (n * 138 / 100 + 1)) := Nat.pow_le_pow_right (by decide) digits
      _ = (58 ^ (n * 138 / 100 + 1)) ^ 100 := by rw [← Nat.pow_mul, Nat.mul_comm]
  exact (Nat.pow_le_pow_iff_left (by decide)).mp hundredth

/-! ## The decoder -/

/-- The two tables are inverse to each other. -/
theorem b58Digit_b58Char {digit : Nat} (small : digit < 58) :
    b58Digit (b58Char digit) = digit ∧ b58Char digit &&& 0x80 = 0 ∧
      (b58Char digit).toNat < 128 ∧ b58Char digit ≠ 0 := by
  have all : ∀ digit : Fin 58, b58Digit (b58Char digit) = (digit : Nat) ∧
      b58Char digit &&& 0x80 = 0 ∧ (b58Char digit).toNat < 128 ∧ b58Char digit ≠ 0 := by
    decide +kernel
  exact all ⟨digit, small⟩

/-- The most significant word is at most the value cut to it. -/
theorem getLastD_mul_le (base : Nat) (digits : List Nat) :
    digits.getLastD 0 * base ^ (digits.length - 1) ≤ ofDigits base digits := by
  induction digits with
  | nil => simp
  | cons digit rest ih =>
      cases rest with
      | nil => simp
      | cons next more =>
          have last : (digit :: next :: more).getLastD 0 = (next :: more).getLastD 0 := by
            simp [List.getLastD]
          rw [last, Nat.ofDigits_cons, List.length_cons, Nat.add_sub_cancel]
          simp only [List.length_cons, Nat.add_sub_cancel] at ih ⊢
          calc (next :: more).getLastD 0 * base ^ (more.length + 1)
              = base * ((next :: more).getLastD 0 * base ^ more.length) := by
                rw [Nat.pow_succ]; ring
            _ ≤ base * ofDigits base (next :: more) := Nat.mul_le_mul_left base ih
            _ ≤ digit + base * ofDigits base (next :: more) := Nat.le_add_left _ _

/-- Decoding the characters of `digits` appends these digits to the number held
in the words, as long as it stays below `2^400`. -/
theorem decodeDigits_eq {outi digits : List Nat} (words : outi.length = 13)
    (bounded : ∀ digit ∈ digits, digit < 58) (word32 : ∀ word ∈ outi, word < 2 ^ 32)
    (fits : ofDigits (2 ^ 32) outi * 58 ^ digits.length + ofDigits 58 digits.reverse
      < 2 ^ 400) :
    ∃ outi', decodeDigits 2 outi (digits.map b58Char) = some outi' ∧ outi'.length = 13 ∧
      (∀ word ∈ outi', word < 2 ^ 32) ∧
      ofDigits (2 ^ 32) outi' =
        ofDigits (2 ^ 32) outi * 58 ^ digits.length + ofDigits 58 digits.reverse := by
  induction digits generalizing outi with
  | nil => exact ⟨outi, rfl, words, word32, by simp⟩
  | cons digit rest ih =>
      have small : digit < 58 := bounded digit List.mem_cons_self
      obtain ⟨digitEq, lowBit, _, _⟩ := b58Digit_b58Char small
      have split : ofDigits (2 ^ 32) outi * 58 ^ (digit :: rest).length +
          ofDigits 58 (digit :: rest).reverse =
          (ofDigits (2 ^ 32) outi * 58 + digit) * 58 ^ rest.length +
            ofDigits 58 rest.reverse := by
        rw [List.reverse_cons, Nat.ofDigits_append, Nat.ofDigits_singleton,
          List.length_reverse, List.length_cons, Nat.pow_succ]
        ring
      rw [split] at fits ⊢
      have one : 1 ≤ 58 ^ rest.length := Nat.one_le_pow _ _ (by decide)
      have grows := Nat.mul_le_mul_left (ofDigits (2 ^ 32) outi * 58 + digit) one
      have small400 : ofDigits (2 ^ 32) outi * 58 + digit < 2 ^ 400 := by omega
      have room : ofDigits (2 ^ 32) outi * 58 + digit < (2 ^ 32) ^ outi.length := by
        rw [words]
        exact Nat.lt_of_lt_of_le small400 (by decide +kernel)
      obtain ⟨noCarry, product⟩ := mulAdd_of_lt room
      have top := getLastD_mul_le (2 ^ 32) (mulAdd (2 ^ 32) 58 outi digit).1
      rw [product, mulAdd_length, words] at top
      have clear : ¬(2 ^ (8 * 2) ≤ (mulAdd (2 ^ 32) 58 outi digit).1.getLastD 0) := by
        intro high
        have large := Nat.mul_le_mul_right ((2 ^ 32) ^ (13 - 1)) high
        have equal : 2 ^ (8 * 2) * (2 ^ 32) ^ (13 - 1) = 2 ^ 400 := by decide +kernel
        omega
      obtain ⟨outi', run, length, final32, value⟩ := @ih
        (mulAdd (2 ^ 32) 58 outi digit).1 (by simpa using words)
        (fun other member => bounded other (List.mem_cons_of_mem digit member))
        (mulAdd_lt (by decide) 58 outi digit) (by rw [product]; exact fits)
      refine ⟨outi', ?_, length, final32, by rw [value, product]⟩
      have valid : ¬(((digit : Nat) : Int) = -1) := by omega
      simp only [List.map_cons, decodeDigits, digitEq, lowBit, ne_eq, not_true_eq_false,
        if_false, valid, Int.toNat_natCast, noCarry, clear, and_false, run]

/-- Splitting a cut expansion. -/
theorem lowDigits_add (base low high n : Nat) :
    lowDigits base (low + high) n =
      lowDigits base low n ++ lowDigits base high (n / base ^ low) := by
  induction low generalizing n with
  | zero => simp [lowDigits]
  | succ low ih =>
      rw [Nat.succ_add, lowDigits, ih, lowDigits, List.cons_append, Nat.div_div_eq_div_mul,
        Nat.pow_succ, Nat.mul_comm base]

/-- The bytes of words are the bytes of the number they hold. -/
theorem flatMap_lowDigits {words : List Nat} (word32 : ∀ word ∈ words, word < 2 ^ 32) :
    words.flatMap (lowDigits 256 4) =
      lowDigits 256 (4 * words.length) (ofDigits (2 ^ 32) words) := by
  induction words with
  | nil => rfl
  | cons word rest ih =>
      have small : word < 2 ^ 32 := word32 word List.mem_cons_self
      have radix : (256 : Nat) ^ 4 = 2 ^ 32 := by decide
      have low : lowDigits 256 4 (word + 2 ^ 32 * ofDigits (2 ^ 32) rest) =
          lowDigits 256 4 word := by
        apply Nat.ofDigits_inj_of_len_eq (b := 256) (by decide) (by simp)
          (lowDigits_lt (by decide) _ _) (lowDigits_lt (by decide) _ _)
        rw [ofDigits_lowDigits, ofDigits_lowDigits, radix, Nat.add_mul_mod_self_left]
      have high : (word + 2 ^ 32 * ofDigits (2 ^ 32) rest) / 256 ^ 4 =
          ofDigits (2 ^ 32) rest := by
        rw [radix, Nat.add_mul_div_left _ _ (by decide), Nat.div_eq_of_lt small, Nat.zero_add]
      rw [List.flatMap_cons, ih fun other member => word32 other (List.mem_cons_of_mem _ member),
        List.length_cons, Nat.mul_succ, Nat.add_comm _ 4, lowDigits_add, Nat.ofDigits_cons,
        low, high]

theorem take_lowDigits (base low high n : Nat) :
    (lowDigits base (low + high) n).take low = lowDigits base low n := by
  rw [lowDigits_add, List.take_left' (lowDigits_length base low n)]

/-- Thirteen words below `2^400` are written as fifty bytes. -/
theorem wordBytes_eq {outi : List Nat} (words : outi.length = 13)
    (word32 : ∀ word ∈ outi, word < 2 ^ 32) :
    wordBytes 50 outi = beBytes 50 (ofDigits (2 ^ 32) outi) := by
  rw [wordBytes, flatMap_lowDigits word32, words, take_lowDigits 256 50 2, beBytes]

/-- Counting stops at the first character that is not `1`. -/
theorem countOnes_eq (count : Nat) {digits : List Nat} (bounded : ∀ digit ∈ digits, digit < 58)
    (first : digits.head? ≠ some 0) :
    countOnes (List.replicate count 49 ++ digits.map b58Char) =
      .ok (count % 2 ^ 32, digits.map b58Char) := by
  induction count with
  | zero =>
      cases digits with
      | nil => rfl
      | cons digit rest =>
          obtain ⟨digitEq, _, ascii, _⟩ := b58Digit_b58Char (bounded digit List.mem_cons_self)
          have nonzero : digit ≠ 0 := fun zero => first (by simp [zero])
          have notOne : ¬(b58Digit (b58Char digit) = 0) := by
            rw [digitEq]
            omega
          rw [List.replicate_zero, List.nil_append, List.map_cons, countOnes,
            if_neg (by omega), if_neg notOne, Nat.zero_mod]
  | succ count ih =>
      have one : b58Digit 49 = 0 := by decide
      have ascii : ¬(128 ≤ (49 : UInt8).toNat) := by decide
      rw [List.replicate_succ, List.cons_append, countOnes, if_neg ascii, if_pos one, ih]
      simp only [Nat.mod_add_mod]

/-! ## Leading zeros -/

section LeadingZeros

variable {α : Type} [DecidableEq α] (zero : α)

/-- A list is its leading zeros and what follows them. -/
theorem replicate_append_dropWhile (list : List α) :
    List.replicate (list.takeWhile (· = zero)).length zero ++ list.dropWhile (· = zero) =
      list := by
  have zeros : list.takeWhile (· = zero) =
      List.replicate (list.takeWhile (· = zero)).length zero := by
    apply List.eq_replicate_of_mem
    intro entry member
    simpa using List.mem_takeWhile_imp member
  rw [← zeros, List.takeWhile_append_dropWhile]

theorem drop_length_takeWhile (list : List α) :
    list.drop (list.takeWhile (· = zero)).length = list.dropWhile (· = zero) := by
  conv_lhs => rw [← List.takeWhile_append_dropWhile (p := (· = zero)) (l := list)]
  rw [List.drop_left' (by rw [List.takeWhile_append_dropWhile])]

theorem head?_dropWhile_ne (list : List α) : (list.dropWhile (· = zero)).head? ≠ some zero := by
  intro head
  have check := List.head?_dropWhile_not (fun entry => decide (entry = zero)) list
  rw [head] at check
  simp at check

theorem length_takeWhile_replicate_append {rest : List α} (count : Nat)
    (first : rest.head? ≠ some zero) :
    ((List.replicate count zero ++ rest).takeWhile (· = zero)).length = count := by
  have none : rest.takeWhile (· = zero) = [] := by
    cases rest with
    | nil => rfl
    | cons entry rest =>
        have different : entry ≠ zero := fun equal => first (by simp [equal])
        simp [different]
  rw [List.takeWhile_append_of_pos (by simp), none, List.append_nil, List.length_replicate]

end LeadingZeros

/-! ## The round trip -/

/-- What was encoded is the text, and it fits the room that it was given. -/
theorem b58enc_eq_some {b58sz : Nat} {data text : UString} :
    b58enc b58sz data = .ok (some text) ↔ b58text data = .ok text ∧ text.length < b58sz := by
  unfold b58enc
  cases b58text data with
  | error failure => exact iff_of_false nofun fun found => nomatch found.1
  | ok found =>
      simp only [bind, Except.bind, Except.ok.injEq]
      split
      next large =>
        refine iff_of_false nofun ?_
        rintro ⟨rfl, small⟩
        omega
      next small =>
        constructor
        · rintro ⟨⟩
          exact ⟨rfl, Nat.lt_of_not_le small⟩
        · rintro ⟨rfl, _⟩
          rfl

/-- No base-58 character is a `-`. -/
theorem b58Char_ne_dash (digit : Nat) : b58Char digit ≠ 45 := by
  have table : b58digitsOrdered.all (· ≠ 45) = true := by decide
  rw [List.all_eq_true] at table
  rw [b58Char, List.getD_eq_getElem?_getD]
  cases found : b58digitsOrdered[digit]? with
  | none => decide
  | some char => exact of_decide_eq_true (table char (List.mem_of_getElem? found))

theorem b58text_no_dash {data text : UString} (encoded : b58text data = .ok text) :
    45 ∉ text := by
  obtain ⟨buf, _, packed⟩ := bind_eq_ok.mp encoded
  cases packed
  intro dash
  rcases List.mem_append.mp dash with zero | other
  · exact absurd (List.eq_of_mem_replicate zero) (by decide)
  · obtain ⟨digit, _, equal⟩ := List.mem_map.mp other
    exact b58Char_ne_dash digit equal

/-- Behind one `1` for each leading zero, `b58enc` writes the digits of the number that
the other bytes are. -/
theorem exists_b58text (data : UString) : ∃ digits : List Nat,
    b58text data = .ok
      (List.replicate (data.takeWhile (· = 0)).length 49 ++ digits.map b58Char) ∧
    (∀ digit ∈ digits, digit < 58) ∧ digits.head? ≠ some 0 ∧
    ofDigits 58 digits.reverse = beNat (data.dropWhile (· = 0)) ∧
    (data.takeWhile (· = 0)).length + digits.length ≤ data.length * 138 / 100 + 1 := by
  have dataEq := replicate_append_dropWhile 0 data
  have coreEq := drop_length_takeWhile 0 data
  generalize zcountEq : (data.takeWhile (· = 0)).length = zcount at dataEq coreEq ⊢
  generalize data.dropWhile (· = 0) = core at dataEq coreEq ⊢
  have length : zcount + core.length = data.length := by
    rw [← dataEq, List.length_append, List.length_replicate]
  have sizeEq : data.length - zcount = core.length := by omega
  -- the encoder's array holds the value of `core`
  obtain ⟨buf, run, bufLength, bufValue, bufDigits⟩ :=
    @encodeLoop_eq (List.replicate (core.length * 138 / 100 + 1) 0) 0 [] core (Nat.zero_le _)
      (by simp) (by simp [beNat]) (by simp)
      (by simpa using size_is_enough core.length)
  have digitsEq := replicate_append_dropWhile 0 buf.reverse
  have digitsHead := head?_dropWhile_ne 0 buf.reverse
  have digitsLe := List.length_dropWhile_le (fun digit => decide (digit = 0)) buf.reverse
  generalize (buf.reverse.takeWhile (· = 0)).length = zeros at digitsEq
  generalize digitsIs : buf.reverse.dropWhile (· = 0) = digits at digitsEq digitsHead digitsLe
  rw [List.length_reverse, bufLength, List.length_replicate] at digitsLe
  refine ⟨digits, ?_, ?_, digitsHead, ?_, by omega⟩
  · simp only [b58text, zcountEq, sizeEq, coreEq, run, digitsIs, bind, Except.bind]
    rfl
  · intro digit member
    apply bufDigits
    rw [← List.mem_reverse, ← digitsEq]
    exact List.mem_append_right _ member
  · have bufEq : buf = digits.reverse ++ List.replicate zeros 0 := by
      rw [← List.reverse_reverse buf, ← digitsEq, List.reverse_append, List.reverse_replicate]
    rw [← Nat.ofDigits_append_replicate_zero (k := zeros), ← bufEq, bufValue]
    rfl

/-- The text is not longer than the array that the digits are computed in. -/
theorem b58text_length {data text : UString} (encoded : b58text data = .ok text) :
    text.length ≤ data.length * 138 / 100 + 1 := by
  obtain ⟨digits, written, _, _, _, size⟩ := exists_b58text data
  cases encoded.symm.trans written
  simpa using size

theorem takeWhile_ne_zero (count : Nat) {digits : List Nat}
    (bounded : ∀ digit ∈ digits, digit < 58) :
    (List.replicate count 49 ++ digits.map b58Char).takeWhile (· ≠ 0) =
      List.replicate count 49 ++ digits.map b58Char := by
  apply List.takeWhile_eq_self_iff.mpr
  intro byte member
  rcases List.mem_append.mp member with one | other
  · simp [List.eq_of_mem_replicate one]
  · obtain ⟨digit, inDigits, equal⟩ := List.mem_map.mp other
    simpa [← equal] using (b58Digit_b58Char (bounded digit inDigits)).2.2.2

/-- `b58tobin` gives the bytes of the number behind one zero for each leading `1`. -/
theorem b58tobin_digits {zcount : Nat} {core : UString} {digits : List Nat}
    (coreHead : core.head? ≠ some 0) (short : zcount + core.length ≤ 50)
    (bounded : ∀ digit ∈ digits, digit < 58) (first : digits.head? ≠ some 0)
    (same : ofDigits 58 digits.reverse = beNat core) :
    b58tobin 50 (List.replicate zcount 49 ++ digits.map b58Char) =
      .ok (some (List.replicate zcount 0 ++ core)) := by
  have small : beNat core < 256 ^ core.length := beNat_lt core
  have fits : beNat core < 2 ^ 400 := by
    refine Nat.lt_of_lt_of_le small ?_
    calc 256 ^ core.length ≤ 256 ^ 50 := Nat.pow_le_pow_right (by decide) (by omega)
      _ = 2 ^ 400 := by decide +kernel
  obtain ⟨outi, decoded, words, word32, value⟩ :=
    @decodeDigits_eq (List.replicate 13 0) _ (by simp) bounded (by simp)
      (by rw [Nat.ofDigits_replicate_zero, Nat.zero_mul, Nat.zero_add, same]
          exact fits)
  have bin : wordBytes 50 outi = List.replicate (50 - core.length) 0 ++ core := by
    have extra : 50 = core.length + (50 - core.length) := by omega
    rw [wordBytes_eq words word32, value, same]
    conv_lhs => rw [extra]
    simp only [Nat.ofDigits_replicate_zero, Nat.zero_mul, Nat.zero_add]
    rw [beBytes_of_lt small, beBytes_beNat]
  have lead := length_takeWhile_replicate_append 0 (50 - core.length) coreHead
  have enough : ¬(50 - core.length < zcount) := by omega
  have shift : (List.replicate (50 - core.length) 0 ++ core).drop
      (50 - core.length - zcount) = List.replicate zcount 0 ++ core := by
    rw [List.drop_append_of_le_length (by simp), List.drop_replicate]
    have left : 50 - core.length - (50 - core.length - zcount) = zcount := by omega
    rw [left]
  have counted := countOnes_eq zcount bounded first
  rw [Nat.mod_eq_of_lt (show zcount < 2 ^ 32 by omega)] at counted
  simp only [b58tobin, takeWhile_ne_zero zcount bounded, counted, bind, Except.bind, decoded, bin,
    lead, if_neg enough, shift]
  rfl

/-- Every string of at most fifty bytes survives `b58enc` and `b58tobin` with
the buffer sizes used for addresses. -/
theorem b58tobin_b58enc {data : UString} (short : data.length ≤ 50) :
    ∃ text, b58enc 256 data = .ok (some text) ∧ b58tobin 50 text = .ok (some data) := by
  obtain ⟨digits, encoded, bounded, first, same, size⟩ := exists_b58text data
  refine ⟨_, b58enc_eq_some.mpr ⟨encoded, ?_⟩, ?_⟩
  · rw [List.length_append, List.length_replicate, List.length_map]
    omega
  have dataEq := replicate_append_dropWhile 0 data
  have length := congrArg List.length dataEq
  rw [List.length_append, List.length_replicate] at length
  rw [b58tobin_digits (head?_dropWhile_ne 0 data) (by omega) bounded first same, dataEq]

end BitMRC

import BitMRC.Foundation.CheckedArray
import BitMRC.Utils.HashTable
import BitMRC.Utils.UStringCodec
import Mathlib.Tactic.IntervalCases
import Mathlib.Tactic.Linarith
import Mathlib.Tactic.NormNum
import Mathlib.Tactic.Ring

/-!
# `hash_f` and its buffer

`hash_f` copies a key into `char c[4]`, word by word with `strncpy` and the last bytes with
`strcpy`, and sums up what then stands in the array, which nothing has initialised.  Here
every access to the array and every signed operation is checked; `hashF_eq` says that in
keys below `2^31` bytes none of the checks fails and the index is `BitMRC.hashF`.
-/

namespace BitMRC.HashF

open Foundation CheckedArray UString

/-- The result of an operation on signed numbers of that many bits. -/
def signed (bits : Nat) (n : Int) : Except Exn Int :=
  if -2 ^ (bits - 1) ≤ n ∧ n < 2 ^ (bits - 1) then .ok n else .error .undefined

/-- `sum += c[k] * mult; mult *= 256;` for the next `count` values of `k`. -/
def sumChars (c : Block 4) : (count k : Nat) → (sum mult : Int) → Except Exn Int
  | 0, _, sum, _ => .ok sum
  | count + 1, k, sum, mult => do
      let char ← fetch .undefined c.toUString k
      let term ← signed 64 (char.toInt8.toInt * mult)
      let sum ← signed 64 (sum + term)
      let mult ← signed 64 (mult * 256)
      sumChars c count (k + 1) sum mult

/-- A copy that fits replaces the start of the array. -/
theorem strcpy_length {c src : UString} (fits : (cStr src).length < c.length) :
    (strcpy c src).length = c.length := by
  rw [strcpy, List.length_append, List.length_drop, List.length_append, List.length_singleton]
  omega

/-- `strcpy` into an array, with the zero behind the string. -/
def strcpyArray (c : Block 4) (src : UString) : Except Exn (Block 4) :=
  if fits : (cStr src).length < c.toUString.length then
    .ok ⟨strcpy c.toUString src, (strcpy_length fits).trans c.toUString_length⟩
  else
    .error .undefined

/-- The loop over the words of the key, for the next `count` values of `j`. -/
def words (hash : UString) : (count j : Nat) → (c : Block 4) → (sum : Int) →
    Except Exn (Block 4 × Int)
  | 0, _, c, sum => .ok (c, sum)
  | count + 1, j, _, sum => do
      let pos ← signed 32 (j * 4)
      let word ← substr hash (sizeT pos) 4
      let c := strncpy word 4
      let sum ← sumChars c 4 0 sum 1
      words hash count (j + 1) c sum

/-- `hash_f`; `c` is what its local array holds on entry. -/
def hashF (c : Block 4) (hash : UString) : Except Exn Int := do
  let intLength := toInt (hash.length / 4 : Nat)
  let (c, sum) ← words hash intLength.toNat 0 c 0
  let pos ← signed 32 (intLength * 4)
  let rest ← substr hash (sizeT pos) hash.length
  let c ← strcpyArray c rest
  let sum ← sumChars c (sizeT (hash.length - pos)) 0 sum 1
  let magnitude ← signed 64 sum.natAbs
  return toInt (magnitude % dim)

example : hashF ⟨[9, 9, 9, 9], rfl⟩ [97, 98] = .ok 25185 := by decide

/-! ## Sums -/

theorem signed_of_range {bits : Nat} {n : Int} (low : -2 ^ (bits - 1) ≤ n)
    (high : n < 2 ^ (bits - 1)) : signed bits n = .ok n :=
  if_pos ⟨low, high⟩

theorem charSum_natAbs_lt (bytes : UString) : (charSum bytes).natAbs < 256 ^ bytes.length := by
  induction bytes with
  | nil => decide
  | cons byte rest ih =>
      have low := byte.toInt8.le_toInt
      have high := byte.toInt8.toInt_lt
      rw [charSum, List.length_cons, Nat.pow_succ]
      omega

/-- The loop over characters, as long as the sum is far from its bounds. -/
theorem sumChars_eq (c : Block 4) {count k : Nat} {sum : Int} (inside : k + count ≤ 4)
    (small : sum.natAbs + count * 2 ^ 31 < 2 ^ 63) :
    sumChars c count k sum (256 ^ k) =
      .ok (sum + 256 ^ k * charSum ((c.toUString.drop k).take count)) := by
  induction count generalizing k sum with
  | zero => simp [sumChars, charSum]
  | succ count ih =>
      have within : k < c.toUString.length := by
        rw [c.toUString_length]
        omega
      have char : fetch Exn.undefined c.toUString k = .ok c.toUString[k] := by
        rw [fetch, List.getElem?_eq_getElem within]
      have power : (1 : Int) ≤ 256 ^ k ∧ (256 : Int) ^ k ≤ 2 ^ 24 := by
        have three : k ≤ 3 := by omega
        interval_cases k <;> norm_num
      have product : -2 ^ 31 ≤ c.toUString[k].toInt8.toInt * 256 ^ k ∧
          c.toUString[k].toInt8.toInt * 256 ^ k < 2 ^ 31 := by
        have low := c.toUString[k].toInt8.le_toInt
        have high := c.toUString[k].toInt8.toInt_lt
        constructor <;> nlinarith
      have term : signed 64 (c.toUString[k].toInt8.toInt * 256 ^ k) = .ok _ :=
        signed_of_range (by omega) (by omega)
      have added : signed 64 (sum + c.toUString[k].toInt8.toInt * 256 ^ k) = .ok _ :=
        signed_of_range (by omega) (by omega)
      have mult : signed 64 (256 ^ k * 256) = .ok _ := signed_of_range (by omega) (by omega)
      have rest := @ih (k + 1) (sum + c.toUString[k].toInt8.toInt * 256 ^ k) (by omega) (by omega)
      rw [Int.pow_succ] at rest
      rw [List.drop_eq_getElem_cons within, List.take_succ_cons, charSum, sumChars]
      refine bind_eq_ok.mpr ⟨_, char, bind_eq_ok.mpr ⟨_, term, bind_eq_ok.mpr ⟨_, added,
        bind_eq_ok.mpr ⟨_, mult, ?_⟩⟩⟩⟩
      rw [rest]
      refine congrArg Except.ok ?_
      ring

/-- What the array holds behind a word. -/
theorem sumChars_block (c : Block 4) {sum : Int} (small : sum.natAbs < 2 ^ 62) :
    sumChars c 4 0 sum 1 = .ok (sum + charSum c.toUString) := by
  have whole := @sumChars_eq c 4 0 sum (by omega) (by omega)
  rwa [List.drop_zero, List.take_of_length_le (by rw [c.toUString_length]), pow_zero,
    one_mul] at whole

/-! ## Words -/

/-- The bytes behind the last word. -/
def tail (hash : UString) : UString := hash.drop (hash.length / 4 * 4)

theorem tail_length (hash : UString) : (tail hash).length = hash.length % 4 := by
  rw [tail, List.length_drop]
  omega

theorem substr_tail (hash : UString) :
    substr hash (hash.length / 4 * 4) hash.length = .ok (tail hash) := by
  rw [substr, if_neg (by omega), List.take_of_length_le]
  · rfl
  · rw [List.length_drop]
    omega

/-- The bound of the last loop. -/
theorem sizeT_tail (hash : UString) :
    sizeT (hash.length - ((hash.length / 4 : Nat) : Int) * 4) = (tail hash).length := by
  rw [tail_length]
  unfold sizeT
  omega

/-- A word, and what is left of the key behind it. -/
theorem exists_word {hash : UString} {j : Nat} (inside : (j + 1) * 4 ≤ hash.length) :
    ∃ b0 b1 b2 b3, substr hash (j * 4) 4 = .ok [b0, b1, b2, b3] ∧
      hash.drop (j * 4) = b0 :: b1 :: b2 :: b3 :: hash.drop ((j + 1) * 4) := by
  have split : hash.drop (j * 4) = hash[j * 4] :: hash[j * 4 + 1] :: hash[j * 4 + 2] ::
      hash[j * 4 + 3] :: hash.drop (j * 4 + 4) := by
    rw [List.drop_eq_getElem_cons, List.drop_eq_getElem_cons, List.drop_eq_getElem_cons,
      List.drop_eq_getElem_cons]
  rw [Nat.succ_mul, substr, if_neg (by omega), split]
  exact ⟨_, _, _, _, rfl, rfl⟩

/-- The words that are left, and the end of the key behind them. -/
theorem words_eq {hash : UString} (short : hash.length < 2 ^ 31) {count j : Nat}
    (total : j + count = hash.length / 4) (c : Block 4) {sum : Int}
    (small : sum.natAbs ≤ j * 2 ^ 32) :
    ∃ c' sum', words hash count j c sum = .ok (c', sum') ∧
      sum'.natAbs ≤ hash.length / 4 * 2 ^ 32 ∧
      sum' + hashSum c'.toUString (tail hash) = sum + hashSum c.toUString (hash.drop (j * 4)) := by
  induction count generalizing j c sum with
  | zero =>
      rw [Nat.add_zero] at total
      subst total
      exact ⟨c, sum, rfl, small, rfl⟩
  | succ count ih =>
      have pos : signed 32 (j * 4) = .ok _ := signed_of_range (by omega) (by omega)
      have start : sizeT ((j : Int) * 4) = j * 4 := sizeT_natCast (n := j * 4) (by omega)
      obtain ⟨b0, b1, b2, b3, word, split⟩ := @exists_word hash j (by omega)
      have chars := @sumChars_block (strncpy [b0, b1, b2, b3] 4) sum (by omega)
      have bound := charSum_natAbs_lt (strncpy [b0, b1, b2, b3] 4).toUString
      rw [Block.toUString_length] at bound
      obtain ⟨c', sum', rest, small', same⟩ := @ih (j + 1) (by omega) (strncpy [b0, b1, b2, b3] 4)
        (sum + charSum (strncpy [b0, b1, b2, b3] 4).toUString) (by omega)
      refine ⟨c', sum', ?_, small', ?_⟩
      · rw [words]
        refine bind_eq_ok.mpr ⟨_, pos, bind_eq_ok.mpr ⟨[b0, b1, b2, b3], ?_,
          bind_eq_ok.mpr ⟨_, chars, rest⟩⟩⟩
        rw [start, word]
      · rw [same, split, hashSum, Int.add_assoc]

/-- Less than a word is read out of the array, whatever stands behind the copied string. -/
theorem hashSum_of_lt (c : UString) {rest : UString} (few : rest.length < 4) :
    hashSum c rest = charSum ((strcpy c rest).take rest.length) := by
  match rest, few with
  | [], _ => rfl
  | [_], _ => rfl
  | [_, _], _ => rfl
  | [_, _, _], _ => rfl

theorem hashSum_natAbs_lt (c : UString) {rest : UString} (few : rest.length < 4) :
    (hashSum c rest).natAbs < 2 ^ 32 := by
  have bound := charSum_natAbs_lt ((strcpy c rest).take rest.length)
  have length : ((strcpy c rest).take rest.length).length ≤ 4 := by
    rw [List.length_take]
    omega
  rw [hashSum_of_lt c few]
  exact Nat.lt_of_lt_of_le bound (Nat.pow_le_pow_right (by decide) length)

/-- The end of the key: its copy fits into the array, and its length is read. -/
theorem sumChars_strcpyArray (c : Block 4) {rest : UString} (few : rest.length < 4) {sum : Int}
    (small : sum.natAbs < 2 ^ 62) :
    (strcpyArray c rest >>= fun c => sumChars c rest.length 0 sum 1) =
      .ok (sum + hashSum c.toUString rest) := by
  have fits : (cStr rest).length < c.toUString.length := by
    rw [c.toUString_length]
    exact Nat.lt_of_le_of_lt (List.takeWhile_prefix _).length_le few
  obtain ⟨block, copied, bytes⟩ : ∃ block, strcpyArray c rest = .ok block ∧
      block.toUString = strcpy c.toUString rest := ⟨_, dif_pos fits, rfl⟩
  have chars := @sumChars_eq block rest.length 0 sum (by omega) (by omega)
  rw [List.drop_zero, pow_zero, one_mul, bytes, ← hashSum_of_lt _ few] at chars
  exact bind_eq_ok.mpr ⟨block, copied, chars⟩

/-! ## The index -/

/-- No check fails in keys below `2^31` bytes, and the index is the one of the table. -/
theorem hashF_eq (c : Block 4) {hash : UString} (short : hash.length < 2 ^ 31) :
    hashF c hash = .ok ((BitMRC.hashF c.toUString hash).val : Int) := by
  have intLength : toInt (hash.length / 4 : Nat) = (hash.length / 4 : Nat) :=
    toInt_of_lt (by omega)
  have pos : signed 32 ((hash.length / 4 : Nat) * 4) = .ok _ :=
    signed_of_range (by omega) (by omega)
  have start : sizeT (((hash.length / 4 : Nat) : Int) * 4) = hash.length / 4 * 4 :=
    sizeT_natCast (n := hash.length / 4 * 4) (by omega)
  have few : (tail hash).length < 4 := by
    rw [tail_length]
    exact Nat.mod_lt _ (by decide)
  -- the words, and what is read out of the array behind them
  obtain ⟨c', sum', loop, small, same⟩ :=
    @words_eq hash short _ 0 (Nat.zero_add _) c 0 (Nat.zero_le _)
  rw [Nat.zero_mul, List.drop_zero, Int.zero_add] at same
  have last := @sumChars_strcpyArray c' _ few sum' (by omega)
  have bound := hashSum_natAbs_lt c'.toUString few
  obtain ⟨block, copied, chars⟩ := bind_eq_ok.mp last
  rw [same] at chars
  have magnitude : signed 64 ((hashSum c.toUString hash).natAbs : Int) = .ok _ :=
    signed_of_range (by omega) (by omega)
  unfold hashF
  simp only [intLength, Int.toNat_natCast]
  refine bind_eq_ok.mpr ⟨_, loop, bind_eq_ok.mpr ⟨_, pos, bind_eq_ok.mpr ⟨_, ?_, bind_eq_ok.mpr
    ⟨_, copied, bind_eq_ok.mpr ⟨_, ?_, bind_eq_ok.mpr ⟨_, magnitude, ?_⟩⟩⟩⟩⟩⟩
  · rw [start, substr_tail]
  · rw [sizeT_tail, chars]
  · have below : (hashSum c.toUString hash).natAbs % dim < 2 ^ 31 :=
      Nat.lt_trans (Nat.mod_lt _ dim_pos) (by decide)
    exact congrArg Except.ok (toInt_of_lt below)

/-- From `2^31` bytes on the start of the last bytes is no `int`. -/
theorem hashF_undefined (c : Block 4) {hash : UString} (long : 2 ^ 31 ≤ hash.length)
    (short : hash.length < 2 ^ 32) (index : Int) : hashF c hash ≠ .ok index := by
  intro returned
  have intLength : toInt (hash.length / 4 : Nat) = (hash.length / 4 : Nat) :=
    toInt_of_lt (by omega)
  have overflow : signed 32 ((hash.length / 4 : Nat) * 4) = .error .undefined :=
    if_neg (by omega)
  unfold hashF at returned
  simp only [intLength] at returned
  obtain ⟨_, _, returned⟩ := bind_eq_ok.mp returned
  obtain ⟨_, pos, _⟩ := bind_eq_ok.mp returned
  cases overflow.symm.trans pos

/-! ## What the index depends on -/

/-- A short key is copied completely if no byte but the last one is zero. -/
theorem strcpy_take {hash : UString} (inner : (0 : UInt8) ∉ hash.dropLast) (c : UString) :
    (strcpy c hash).take hash.length = hash := by
  rcases List.eq_nil_or_concat hash with rfl | ⟨init, last, rfl⟩
  · rfl
  · rw [List.concat_eq_append, List.dropLast_concat] at inner
    rw [List.concat_eq_append]
    have copied : cStr (init ++ [last]) = init ++ cStr [last] := by
      apply List.takeWhile_append_of_pos
      intro byte member
      exact decide_eq_true fun zero => inner (zero ▸ member)
    unfold strcpy
    rw [copied]
    by_cases zero : last = 0
    · subst zero
      have nothing : cStr [0] = [] := rfl
      simp only [nothing, List.append_nil]
      exact List.take_left
    · have whole : cStr [last] = [last] := List.takeWhile_cons_of_pos (decide_eq_true zero)
      simp only [whole, List.append_assoc (init ++ [last])]
      exact List.take_left

/-- One sum is not mistaken for the other. -/
theorem natAbs_mod_apart {value : Int} (low : -128 ≤ value) (high : value < 128) :
    value.natAbs % dim ≠ (value + 65536).natAbs % dim := by
  have size : dim = 100771 := rfl
  rw [Nat.mod_eq_of_lt (by omega), Nat.mod_eq_of_lt (by omega)]
  omega

/-- Bytes behind a zero come from the array. -/
theorem hashF_stale {hash : UString} (few : hash.length < 4) (inner : (0 : UInt8) ∈ hash.dropLast) :
    BitMRC.hashF [0, 0, 0, 0] hash ≠ BitMRC.hashF [0, 1, 1, 0] hash := by
  have differ {clean stale : Int} (zeros : hashSum [0, 0, 0, 0] hash = clean)
      (ones : hashSum [0, 1, 1, 0] hash = stale)
      (apart : clean.natAbs % dim ≠ stale.natAbs % dim) :
      BitMRC.hashF [0, 0, 0, 0] hash ≠ BitMRC.hashF [0, 1, 1, 0] hash := by
    intro same
    have index := congrArg Fin.val same
    simp only [BitMRC.hashF, zeros, ones] at index
    exact apart index
  match hash, few with
  | [], _ => cases inner
  | [_], _ => cases inner
  | [a, b], _ =>
      have zero : a = 0 := by simpa [eq_comm] using inner
      subst zero
      exact @differ 0 256 rfl rfl (by decide)
  | [a, b, e], few =>
      by_cases first : a = 0
      · subst first
        exact @differ 0 65792 rfl rfl (by decide)
      · have zero : b = 0 := by simpa [eq_comm, first] using inner
        subst zero
        have copied : cStr [a, 0, e] = [a] := by simp [cStr, first]
        have sum (c : UString) : hashSum c [a, 0, e] = charSum (([a, 0] ++ c.drop 2).take 3) := by
          rw [hashSum_of_lt c few, strcpy, copied]
          rfl
        have clean : hashSum [0, 0, 0, 0] [a, 0, e] = a.toInt8.toInt := by
          rw [sum]
          exact Int.add_zero _
        have stale : hashSum [0, 1, 1, 0] [a, 0, e] = a.toInt8.toInt + 65536 := sum _
        exact differ clean stale (natAbs_mod_apart a.toInt8.le_toInt a.toInt8.toInt_lt)

theorem hashF_depends_iff (hash : UString) :
    (∀ c c' : Block 4, BitMRC.hashF c.toUString hash = BitMRC.hashF c'.toUString hash) ↔
      4 ≤ hash.length ∨ (0 : UInt8) ∉ hash.dropLast := by
  constructor
  · intro same
    by_contra neither
    rw [not_or, not_not, Nat.not_le] at neither
    exact hashF_stale neither.1 neither.2 (same ⟨[0, 0, 0, 0], rfl⟩ ⟨[0, 1, 1, 0], rfl⟩)
  · rintro (long | inner) c c'
    · exact hashF_of_four_le long _ _
    · by_cases long : 4 ≤ hash.length
      · exact hashF_of_four_le long _ _
      · have few := Nat.lt_of_not_le long
        simp only [BitMRC.hashF, hashSum_of_lt _ few, strcpy_take inner]

/-- Two runs on the same key, whatever the array holds: both return, and the same index of
the table. -/
def Functional (hash : UString) : Prop :=
  ∀ c c' : Block 4, ∃ index, hashF c hash = .ok index ∧ hashF c' hash = .ok index ∧
    0 ≤ index ∧ index < dim

/-- `hash_f` is a function of the key for keys whose length is an `int` and that have a whole
word, or no zero in front of their last byte. -/
theorem hashF_functional_iff (hash : UString) (short : hash.length < 2 ^ 32) :
    Functional hash ↔
      hash.length < 2 ^ 31 ∧ (4 ≤ hash.length ∨ (0 : UInt8) ∉ hash.dropLast) := by
  rw [← hashF_depends_iff]
  constructor
  · intro functional
    have int : hash.length < 2 ^ 31 := by
      by_contra long
      obtain ⟨index, returned, _⟩ := functional (strncpy [] 4) (strncpy [] 4)
      exact hashF_undefined _ (Nat.le_of_not_lt long) short index returned
    refine ⟨int, fun c c' => ?_⟩
    obtain ⟨index, first, second, _⟩ := functional c c'
    have same := (hashF_eq c int).symm.trans (first.trans (second.symm.trans (hashF_eq c' int)))
    exact Fin.ext (Int.ofNat.inj (Except.ok.inj same))
  · rintro ⟨int, same⟩ c c'
    refine ⟨_, hashF_eq c int, ?_, Int.natCast_nonneg _, ?_⟩
    · rw [hashF_eq c' int, same c c']
    · exact Int.ofNat_lt.mpr (BitMRC.hashF c.toUString hash).isLt

theorem hashF_functional_iff_sample :
    Functional [97, 98] ↔ 2 < 2 ^ 31 ∧ (4 ≤ 2 ∨ (0 : UInt8) ∉ [97]) :=
  hashF_functional_iff [97, 98] (by decide)

/-- Behind the zero of the key `00 05` the second byte of the array is read. -/
theorem not_hashF_functional :
    hashF ⟨[0, 0, 0, 0], rfl⟩ [0, 5] = .ok 0 ∧ hashF ⟨[0, 1, 0, 0], rfl⟩ [0, 5] = .ok 256 ∧
      ¬∀ hash : UString, hash.length < 2 ^ 32 → Functional hash := by
  have clean : hashF ⟨[0, 0, 0, 0], rfl⟩ [0, 5] = .ok 0 := by decide
  have stale : hashF ⟨[0, 1, 0, 0], rfl⟩ [0, 5] = .ok 256 := by decide
  refine ⟨clean, stale, fun functional => ?_⟩
  obtain ⟨index, first, second, _⟩ :=
    functional [0, 5] (by decide) ⟨[0, 0, 0, 0], rfl⟩ ⟨[0, 1, 0, 0], rfl⟩
  cases clean.symm.trans first
  cases stale.symm.trans second

end BitMRC.HashF

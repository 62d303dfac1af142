import BitMRC.Crypto.Platform
import BitMRC.Wire.Object

/-!
# `pow.cpp`

The proof of work of an object is the double SHA-512 of its nonce and of the
hash of the rest.  `doPow` computes it from a whole payload, `searchPow` builds
the hashed buffer itself and tries one nonce after the other.  The host is
little-endian.
-/

namespace BitMRC

open UString

/-! ## Hashing -/

/-- `memcpy` of eight bytes into a `uint64_t`. -/
def littleEndianWord (bytes : UString) : UInt64 :=
  UInt64.ofNat (Nat.ofDigits 256 (bytes.map UInt8.toNat))

/-- `BigLongLong`, which is `LongLongSwap` on a little-endian host. -/
def longLongSwap (i : UInt64) : UInt64 :=
  let b1 := i.toUInt8
  let b2 := (i >>> 8).toUInt8
  let b3 := (i >>> 16).toUInt8
  let b4 := (i >>> 24).toUInt8
  let b5 := (i >>> 32).toUInt8
  let b6 := (i >>> 40).toUInt8
  let b7 := (i >>> 48).toUInt8
  let b8 := (i >>> 56).toUInt8
  (b1.toUInt64 <<< 56) + (b2.toUInt64 <<< 48) + (b3.toUInt64 <<< 40) + (b4.toUInt64 <<< 32)
    + (b5.toUInt64 <<< 24) + (b6.toUInt64 <<< 16) + (b7.toUInt64 <<< 8) + b8.toUInt64

/-- The proof-of-work value of two hashes in a row. -/
def powValue (platform : Platform) (hashed : UString) : UInt64 :=
  longLongSwap (littleEndianWord ((platform.doubleSHA512 hashed).toUString.take 8))

def doPow (platform : Platform) (data : UString) : Except Exn UInt64 := do
  let payload ← substr data 8 data.length
  let nonce ← substr data 0 8
  return powValue platform (nonce ++ (platform.sha512 payload).toUString)

/-! ## Target -/

/-- `if ((int32_t)TTL < 300 && (int32_t)TTL > -3600) TTL = 300;` -/
def clampTTL (ttl : UInt64) : UInt64 :=
  if ttl.toUInt32.toInt32 < 300 ∧ -3600 < ttl.toUInt32.toInt32 then 300 else ttl

/-- `divisor`, for the time to live after the first `if`. -/
def powDivisor (length ttl extrabytes noncetrials : UInt64) : UInt64 :=
  (((length + extrabytes) * ttl) / 0x10000 + extrabytes + length) * noncetrials

/-- `getTarget`, as the `uint64_t` its callers convert it to. -/
def getTarget (length ttl extrabytes noncetrials : UInt64) : Except Exn UInt64 :=
  let two63 : UInt64 := 0x8000000000000000
  let divisor := powDivisor length (clampTTL ttl) extrabytes noncetrials
  if divisor = 0 then
    .error .undefined
  else
    let target := two63 / divisor * 2
    if divisor ≤ (two63 % divisor) * 2 then .ok (target + 1) else .ok target

/-- `checkPow`; the last two parameters of the source are not used by it. -/
def checkPow (platform : Platform) (now : Int64) (data : UString) (ttl : UInt64) :
    Except Exn Bool := do
  let pow ← doPow platform data
  let target ← getTarget (UInt64.ofNat data.length - 8) (ttl - now.toUInt64) 1000 1000
  return decide (pow ≤ target)

/-! ## Search -/

/-- The eight bytes that `searchPow` writes in front of the hash. -/
def nonceBytes (nonce : UInt64) : UString := [
  (nonce >>> 56).toUInt8, (nonce >>> 48).toUInt8, (nonce >>> 40).toUInt8,
  (nonce >>> 32).toUInt8, (nonce >>> 24).toUInt8, (nonce >>> 16).toUInt8,
  (nonce >>> 8).toUInt8, nonce.toUInt8]

/-- `while (pow_value > target)`; `pow` is the value of a nonce, and no result
means that the loop is still running. -/
def searchLoop (pow : UInt64 → UInt64) (target : UInt64) :
    Nat → UInt64 → UInt64 → Option UInt64
  | 0, _, _ => none
  | fuel + 1, value, nonce =>
      if target < value then
        searchLoop pow target fuel (pow (nonce + 1)) (nonce + 1)
      else
        some nonce

def searchPow (platform : Platform) (now : Int64) (fuel : Nat) (data : UString)
    (ttl : UInt64) : Except Exn (Option UInt64) := do
  let payload ← substr data 8 data.length
  let initialHash := platform.sha512 payload
  let target ← getTarget (UInt64.ofNat payload.length) (ttl - now.toUInt64) 1000 1000
  let pow := fun nonce => powValue platform (nonceBytes nonce ++ initialHash.toUString)
  return searchLoop pow target fuel (-1) 0

/-! ## Both sides hash the same bytes -/

theorem nonceBytes_eq (nonce : UInt64) : nonceBytes nonce = appendInt64 [] nonce.toInt64 := rfl

theorem substr_eight {before : UString} (rest : UString) (eight : before.length = 8) :
    substr (before ++ rest) 8 (before ++ rest).length = .ok rest ∧
      substr (before ++ rest) 0 8 = .ok before := by
  constructor
  · have inside : ¬((before ++ rest).length < 8) := by simp [eight]
    rw [substr, if_neg inside, ← eight, List.drop_left, List.take_of_length_le (by simp)]
  · rw [substr, if_neg (Nat.not_lt_zero _), List.drop_zero, List.take_left' eight]

/-- `doPow` of a payload is what `searchPow` computes for its nonce. -/
theorem doPow_nonce (platform : Platform) (nonce : UInt64) (rest : UString) :
    doPow platform (appendInt64 [] nonce.toInt64 ++ rest) =
      .ok (powValue platform (nonceBytes nonce ++ (platform.sha512 rest).toUString)) := by
  obtain ⟨payload, first⟩ :=
    @substr_eight (appendInt64 [] nonce.toInt64) rest (appendInt64_length _)
  rw [doPow, payload, first, nonceBytes_eq]
  rfl

/-- A search that ends has found a nonce that meets the target. -/
theorem searchLoop_le {pow : UInt64 → UInt64} {target nonce found : UInt64} {fuel : Nat}
    (result : searchLoop pow target fuel (pow nonce) nonce = some found) :
    pow found ≤ target := by
  induction fuel generalizing nonce with
  | zero => cases result
  | succ fuel ih =>
      rw [searchLoop] at result
      split at result
      next above => exact ih result
      next below =>
        cases result
        exact UInt64.not_lt.mp below

/-- The same from the initial value `-1`, which only the largest target meets. -/
theorem searchLoop_start_le (pow : UInt64 → UInt64) {target found : UInt64} {fuel : Nat}
    (result : searchLoop pow target fuel (-1) 0 = some found) : pow found ≤ target := by
  cases fuel with
  | zero => cases result
  | succ fuel =>
      rw [searchLoop] at result
      split at result
      next above => exact searchLoop_le result
      next below =>
        have largest : (-1 : UInt64) ≤ target := UInt64.not_lt.mp below
        simp only [UInt64.le_iff_toNat_le] at *
        have bound := (pow found).toNat_lt
        have top : (-1 : UInt64).toNat = 2 ^ 64 - 1 := by decide
        omega

/-! ## The target is exact -/

/-- Remaining time to live as it enters the divisor. -/
def clampedSeconds (seconds : Int) : Nat := (max seconds 300).toNat

/-- The exact divisor for a payload of `length` bytes behind the nonce. -/
def exactDivisor (length ttl : Nat) : Nat :=
  (((length + 1000) * ttl) / 65536 + 1000 + length) * 1000

theorem toInt_eq_bmod (i : Int64) : i.toInt = (i.toUInt64.toNat : Int).bmod (2 ^ 64) :=
  BitVec.toInt_eq_toNat_bmod i.toBitVec

theorem toInt32_eq_bmod (word : UInt64) :
    word.toUInt32.toInt32.toInt = (word.toNat : Int).bmod (2 ^ 32) := by
  have low : word.toUInt32.toInt32.toInt = (word.toUInt32.toNat : Int).bmod (2 ^ 32) :=
    BitVec.toInt_eq_toNat_bmod word.toUInt32.toBitVec
  rw [low, UInt64.toNat_toUInt32]
  simp only [Int.bmod_def]
  omega

theorem toNat_eq_emod (i : Int64) : (i.toUInt64.toNat : Int) = i.toInt % 2 ^ 64 := by
  have range := i.toUInt64.toNat_lt
  have whole : (i.toUInt64.toNat : Int).bmod (2 ^ 64) % 2 ^ 64 = i.toUInt64.toNat % 2 ^ 64 :=
    Int.bmod_emod
  rw [toInt_eq_bmod, whole]
  omega

/-- The `uint64_t` that the callers pass for the remaining time to live. -/
theorem toNat_difference (time now : Int64) :
    ((time.toUInt64 - now.toUInt64).toNat : Int) = (time.toInt - now.toInt) % 2 ^ 64 := by
  have nowLt := now.toUInt64.toNat_lt
  rw [UInt64.toNat_sub, Int.sub_emod, ← toNat_eq_emod, ← toNat_eq_emod]
  omega

/-- Within the window that `validateObj` allows, the subtraction and the cast to
`int32_t` are exact. -/
theorem toInt32_difference {time now : Int64} (recent : -3600 < time.toInt - now.toInt)
    (near : time.toInt - now.toInt ≤ 2430000) :
    (time.toUInt64 - now.toUInt64).toUInt32.toInt32.toInt = time.toInt - now.toInt := by
  rw [toInt32_eq_bmod, toNat_difference, Int.bmod_def]
  omega

theorem clampTTL_eq {time now : Int64} (recent : -3600 < time.toInt - now.toInt)
    (near : time.toInt - now.toInt ≤ 2430000) :
    (clampTTL (time.toUInt64 - now.toUInt64)).toNat =
      clampedSeconds (time.toInt - now.toInt) := by
  have difference := toNat_difference time now
  have below : (300 : Int32).toInt = 300 := by decide
  have above : (-3600 : Int32).toInt = -3600 := by decide
  have three : (300 : UInt64).toNat = 300 := by decide
  simp only [clampTTL, clampedSeconds, Int32.lt_iff_toInt_lt, below, above,
    toInt32_difference recent near]
  split
  next low =>
    rw [three]
    omega
  next high => omega

theorem double_div (divisor : Nat) (positive : 0 < divisor) :
    2 ^ 64 / divisor = 2 ^ 63 / divisor * 2 +
      if divisor ≤ 2 ^ 63 % divisor * 2 then 1 else 0 := by
  have split := Nat.div_add_mod (2 ^ 63) divisor
  have small := Nat.mod_lt (2 ^ 63) positive
  generalize 2 ^ 63 / divisor = quotient at *
  generalize 2 ^ 63 % divisor = remainder at *
  have whole : 2 ^ 64 = remainder * 2 + divisor * (quotient * 2) := by
    have twice : 2 ^ 64 = 2 * 2 ^ 63 := by decide
    rw [twice, ← split]
    ring
  rw [whole, Nat.add_mul_div_left _ _ positive]
  split
  next large =>
    have one : remainder * 2 / divisor = 1 :=
      Nat.div_eq_of_lt_le (by omega) (by omega)
    omega
  next little =>
    have zero : remainder * 2 / divisor = 0 := Nat.div_eq_of_lt (by omega)
    omega

/-- The divisor for any difficulty, over the unbounded integers. -/
def difficultyDivisor (length ttl extrabytes noncetrials : Nat) : Nat :=
  ((length + extrabytes) * ttl / 65536 + extrabytes + length) * noncetrials

theorem exactDivisor_eq (length ttl : Nat) :
    exactDivisor length ttl = difficultyDivisor length ttl 1000 1000 := rfl

/-- The divisor without the `uint64_t` steps that cannot overflow. -/
theorem powDivisor_toNat {length extrabytes : UInt64} (short : length.toNat ≤ 0x40000)
    (extra : extrabytes.toNat ≤ 2 ^ 20) (ttl noncetrials : UInt64) :
    (powDivisor length ttl extrabytes noncetrials).toNat =
      ((length.toNat + extrabytes.toNat) * ttl.toNat % 2 ^ 64 / 65536 + extrabytes.toNat +
        length.toNat) * noncetrials.toNat % 2 ^ 64 := by
  have page : (0x10000 : UInt64).toNat = 65536 := by decide
  have first : (length + extrabytes).toNat = length.toNat + extrabytes.toNat := by
    rw [UInt64.toNat_add]
    omega
  have second : ((length + extrabytes) * ttl / 0x10000 + extrabytes + length).toNat =
      (length.toNat + extrabytes.toNat) * ttl.toNat % 2 ^ 64 / 65536 + extrabytes.toNat +
        length.toNat := by
    rw [UInt64.toNat_add, UInt64.toNat_add, UInt64.toNat_div, UInt64.toNat_mul, first, page]
    omega
  rw [powDivisor, UInt64.toNat_mul, second]

/-- No difficulty up to `2^20` makes the divisor overflow. -/
theorem powDivisor_eq {length ttl extrabytes noncetrials : UInt64}
    (short : length.toNat ≤ 0x40000) (extra : extrabytes.toNat ≤ 2 ^ 20)
    (trials : noncetrials.toNat ≤ 2 ^ 20) (near : ttl.toNat ≤ 2430000) :
    (powDivisor length ttl extrabytes noncetrials).toNat =
      difficultyDivisor length.toNat ttl.toNat extrabytes.toNat noncetrials.toNat := by
  have product : (length.toNat + extrabytes.toNat) * ttl.toNat ≤ (0x40000 + 2 ^ 20) * 2430000 :=
    Nat.mul_le_mul (by omega) near
  have whole : ((length.toNat + extrabytes.toNat) * ttl.toNat / 65536 + extrabytes.toNat +
      length.toNat) * noncetrials.toNat ≤ 2 ^ 26 * 2 ^ 20 :=
    Nat.mul_le_mul (by omega) trials
  have inner : (length.toNat + extrabytes.toNat) * ttl.toNat % 2 ^ 64 =
      (length.toNat + extrabytes.toNat) * ttl.toNat := Nat.mod_eq_of_lt (by omega)
  rw [powDivisor_toNat short extra, difficultyDivisor, inner, Nat.mod_eq_of_lt (by omega)]

theorem difficultyDivisor_le {length ttl extrabytes noncetrials : Nat} (short : length ≤ 0x40000)
    (extra : extrabytes ≤ 2 ^ 20) (trials : noncetrials ≤ 2 ^ 20) (near : ttl ≤ 2430000) :
    difficultyDivisor length ttl extrabytes noncetrials ≤ 2 ^ 46 := by
  have product : (length + extrabytes) * ttl ≤ (0x40000 + 2 ^ 20) * 2430000 :=
    Nat.mul_le_mul (by omega) near
  have whole : ((length + extrabytes) * ttl / 65536 + extrabytes + length) * noncetrials ≤
      2 ^ 26 * 2 ^ 20 := Nat.mul_le_mul (by omega) trials
  unfold difficultyDivisor
  omega

/-- The two divisions of `2^63` return the quotient of `2^64`. -/
theorem getTarget_of_divisor {length ttl extrabytes noncetrials : UInt64} {divisor : Nat}
    (computed : (powDivisor length (clampTTL ttl) extrabytes noncetrials).toNat = divisor)
    (large : 2 ≤ divisor) (small : divisor ≤ 2 ^ 63) :
    ∃ target, getTarget length ttl extrabytes noncetrials = .ok target ∧
      target.toNat = 2 ^ 64 / divisor := by
  generalize wordEq : powDivisor length (clampTTL ttl) extrabytes noncetrials = word at computed
  have double := double_div divisor (by omega)
  have quotient : 2 ^ 63 / divisor ≤ 2 ^ 63 / 2 := Nat.div_le_div_left large (by decide)
  have remainder := Nat.mod_lt (2 ^ 63) (show 0 < divisor by omega)
  have two63 : (0x8000000000000000 : UInt64).toNat = 2 ^ 63 := by decide
  have two : (2 : UInt64).toNat = 2 := by decide
  have nonzero : ¬(word = 0) := by
    intro zero
    have none : word.toNat = 0 := by rw [zero]; rfl
    omega
  have half : ((0x8000000000000000 : UInt64) / word * 2).toNat = 2 ^ 63 / divisor * 2 := by
    rw [UInt64.toNat_mul, UInt64.toNat_div, two63, computed, two]
    omega
  have rest : ((0x8000000000000000 : UInt64) % word * 2).toNat = 2 ^ 63 % divisor * 2 := by
    rw [UInt64.toNat_mul, UInt64.toNat_mod, two63, computed, two]
    omega
  have one : ((0x8000000000000000 : UInt64) / word * 2 + 1).toNat =
      2 ^ 63 / divisor * 2 + 1 := by
    have unit : (1 : UInt64).toNat = 1 := by decide
    rw [UInt64.toNat_add, half, unit]
    omega
  simp only [getTarget, wordEq, if_neg nonzero, UInt64.le_iff_toNat_le, rest, computed]
  split at double
  next round => exact ⟨_, by rw [if_pos round], by rw [one, double]⟩
  next floor => exact ⟨_, by rw [if_neg floor], by rw [half, double, Nat.add_zero]⟩

theorem exactDivisor_large (length ttl : Nat) : 1000000 ≤ exactDivisor length ttl := by
  unfold exactDivisor
  omega

theorem exactDivisor_mono (length : Nat) {ttl longer : Nat} (le : ttl ≤ longer) :
    exactDivisor length ttl ≤ exactDivisor length longer := by
  have product := Nat.mul_le_mul_left (length + 1000) le
  have quotient := Nat.div_le_div_right (c := 65536) product
  unfold exactDivisor
  omega

/-- In the window of `validateObj`, `getTarget` returns the quotient of `2^64` by the
exact divisor, for all difficulties that are not too small and not too large. -/
theorem getTarget_difficulty {length extrabytes noncetrials : UInt64} {time now : Int64}
    (short : length.toNat ≤ 0x40000)
    (extra : 2 ≤ extrabytes.toNat ∧ extrabytes.toNat ≤ 2 ^ 20)
    (trials : 2 ≤ noncetrials.toNat ∧ noncetrials.toNat ≤ 2 ^ 20)
    (recent : -3600 < time.toInt - now.toInt) (near : time.toInt - now.toInt ≤ 2430000) :
    ∃ target,
      getTarget length (time.toUInt64 - now.toUInt64) extrabytes noncetrials = .ok target ∧
      target.toNat = 2 ^ 64 / difficultyDivisor length.toNat
        (clampedSeconds (time.toInt - now.toInt)) extrabytes.toNat noncetrials.toNat := by
  have ttl := clampTTL_eq recent near
  have bound : (clampTTL (time.toUInt64 - now.toUInt64)).toNat ≤ 2430000 := by
    rw [ttl, clampedSeconds]
    omega
  have computed := powDivisor_eq short extra.2 trials.2 bound
  have upper := difficultyDivisor_le short extra.2 trials.2 bound
  have lower : 2 * 2 ≤ difficultyDivisor length.toNat
      (clampTTL (time.toUInt64 - now.toUInt64)).toNat extrabytes.toNat noncetrials.toNat :=
    Nat.mul_le_mul (by omega) trials.1
  rw [← ttl]
  exact getTarget_of_divisor computed (by omega) (by omega)

/-- The same for the difficulty of the network. -/
theorem getTarget_eq {length : UInt64} (time now : Int64) (short : length.toNat ≤ 0x40000)
    (recent : -3600 < time.toInt - now.toInt) (near : time.toInt - now.toInt ≤ 2430000) :
    ∃ target, getTarget length (time.toUInt64 - now.toUInt64) 1000 1000 = .ok target ∧
      target.toNat =
        2 ^ 64 / exactDivisor length.toNat (clampedSeconds (time.toInt - now.toInt)) := by
  have thousand : (1000 : UInt64).toNat = 1000 := by decide
  have found := @getTarget_difficulty length 1000 1000 time now short (by decide) (by decide)
    recent near
  rwa [thousand, ← exactDivisor_eq] at found

/-- The same from the difference of the two times, as the callers compute it. -/
theorem getTarget_seconds {length extrabytes noncetrials : UInt64} {seconds : Int64}
    (short : length.toNat ≤ 0x40000)
    (extra : 2 ≤ extrabytes.toNat ∧ extrabytes.toNat ≤ 2 ^ 20)
    (trials : 2 ≤ noncetrials.toNat ∧ noncetrials.toNat ≤ 2 ^ 20)
    (recent : -3600 < seconds.toInt) (near : seconds.toInt ≤ 2430000) :
    ∃ target, getTarget length seconds.toUInt64 extrabytes noncetrials = .ok target ∧
      target.toNat = 2 ^ 64 / difficultyDivisor length.toNat (clampedSeconds seconds.toInt)
        extrabytes.toNat noncetrials.toNat := by
  have none : (0 : Int64).toInt = 0 := rfl
  have zero : (0 : Int64).toUInt64 = 0 := rfl
  have found := @getTarget_difficulty length extrabytes noncetrials seconds 0 short extra trials
    (by omega) (by omega)
  rwa [none, Int.sub_zero, zero, UInt64.sub_zero] at found

/-! ## The edge of the window -/

/-- At the very edge of the window the time to live is negative and is not raised to
300 seconds. -/
theorem clampTTL_edge {ttl : UInt64} (edge : ttl.toNat = 2 ^ 64 - 3600) : clampTTL ttl = ttl := by
  have wide := toInt32_eq_bmod ttl
  have low : (-3600 : Int32).toInt = -3600 := by decide
  rw [edge, Int.bmod_def] at wide
  unfold clampTTL
  rw [if_neg]
  rintro ⟨_, above⟩
  rw [Int32.lt_iff_toInt_lt, low] at above
  omega

/-- The divisor is then huge, but not zero. -/
theorem powDivisor_edge {length ttl : UInt64} (short : length.toNat ≤ 0x40000)
    (edge : ttl.toNat = 2 ^ 64 - 3600) :
    2 ^ 57 ≤ (powDivisor length (clampTTL ttl) 1000 1000).toNat ∧
      (powDivisor length (clampTTL ttl) 1000 1000).toNat ≤ 2 ^ 63 := by
  have thousand : (1000 : UInt64).toNat = 1000 := by decide
  have product : (length.toNat + 1000) * ttl.toNat % 2 ^ 64 =
      2 ^ 64 - (length.toNat + 1000) * 3600 := by
    rw [edge]
    omega
  rw [clampTTL_edge edge, powDivisor_toNat short (by decide), thousand, product]
  obtain ⟨quotient, same⟩ :
      ∃ quotient, quotient = (2 ^ 64 - (length.toNat + 1000) * 3600) / 65536 := ⟨_, rfl⟩
  rw [← same, Nat.mod_eq_of_lt (by omega)]
  omega

/-- The length that `checkPow` hands to `getTarget`. -/
theorem payloadLength_toNat {data : UString} (eight : 8 ≤ data.length)
    (short : data.length ≤ 0x40000) : (UInt64.ofNat data.length - 8).toNat = data.length - 8 := by
  have bytes : (UInt64.ofNat data.length).toNat = data.length := by
    rw [UInt64.toNat_ofNat']
    omega
  have eight : (8 : UInt64).toNat = 8 := by decide
  rw [UInt64.toNat_sub, eight, bytes]
  omega

/-- A payload that holds a nonce has a proof-of-work value. -/
theorem exists_doPow (platform : Platform) {data : UString} (eight : 8 ≤ data.length) :
    ∃ pow, doPow platform data = .ok pow := by
  have payload : substr data 8 data.length = .ok ((data.drop 8).take data.length) :=
    if_neg (Nat.not_lt.mpr eight)
  have nonce : substr data 0 8 = .ok ((data.drop 0).take 8) := if_neg (Nat.not_lt_zero _)
  rw [doPow, payload, nonce]
  exact ⟨_, rfl⟩

/-- Inside the window of `validateObj` the check never divides by zero. -/
theorem exists_checkPow (platform : Platform) {time now : Int64} {data : UString}
    (eight : 8 ≤ data.length) (short : data.length ≤ 0x40000)
    (recent : -3600 ≤ (time - now).toInt) (near : (time - now).toInt ≤ 2430000) :
    ∃ passes, checkPow platform now data time.toUInt64 = .ok passes := by
  have length := payloadLength_toNat eight short
  have difference : (time - now).toUInt64 = time.toUInt64 - now.toUInt64 := rfl
  obtain ⟨target, found⟩ : ∃ target, getTarget (UInt64.ofNat data.length - 8)
      (time.toUInt64 - now.toUInt64) 1000 1000 = .ok target := by
    rw [← difference]
    by_cases edge : (time - now).toInt = -3600
    · have exact : (time - now).toUInt64.toNat = 2 ^ 64 - 3600 := by
        have word := toNat_eq_emod (time - now)
        rw [edge] at word
        omega
      obtain ⟨large, small⟩ :=
        @powDivisor_edge (UInt64.ofNat data.length - 8) _ (by omega) exact
      obtain ⟨target, found, _⟩ := getTarget_of_divisor rfl (by omega) small
      exact ⟨target, found⟩
    · obtain ⟨target, found, _⟩ := @getTarget_seconds (UInt64.ofNat data.length - 8) 1000 1000
        (time - now) (by omega) (by decide) (by decide) (by omega) near
      exact ⟨target, found⟩
  obtain ⟨pow, hashed⟩ := exists_doPow platform eight
  refine ⟨decide (pow ≤ target), ?_⟩
  rw [checkPow, hashed, found]
  rfl

/-- The target only grows while the object waits. -/
theorem getTarget_mono {length target : UInt64} {time earlier later : Int64}
    (short : length.toNat ≤ 0x40000) (order : earlier.toInt ≤ later.toInt)
    (near : time.toInt - earlier.toInt ≤ 2430000)
    (recent : -3600 < time.toInt - later.toInt)
    (searched : getTarget length (time.toUInt64 - earlier.toUInt64) 1000 1000 = .ok target) :
    ∃ target', getTarget length (time.toUInt64 - later.toUInt64) 1000 1000 = .ok target' ∧
      target ≤ target' := by
  obtain ⟨first, firstEq, firstValue⟩ :=
    getTarget_eq time earlier short (by omega) near
  obtain ⟨second, secondEq, secondValue⟩ :=
    getTarget_eq time later short recent (by omega)
  have same : first = target := by simpa [firstEq] using searched
  refine ⟨second, secondEq, ?_⟩
  rw [← same, UInt64.le_iff_toNat_le, firstValue, secondValue]
  have seconds : clampedSeconds (time.toInt - later.toInt) ≤
      clampedSeconds (time.toInt - earlier.toInt) := by
    unfold clampedSeconds
    omega
  apply Nat.div_le_div_left (exactDivisor_mono _ seconds)
  have large := exactDivisor_large length.toNat (clampedSeconds (time.toInt - later.toInt))
  omega

/-- A nonce that `searchPow` returns at one time passes `checkPow` at every later
time inside the window, whatever nonce the searched payload carried. -/
theorem checkPow_searchPow {platform : Platform} {before rest : UString}
    {time earlier later : Int64} {nonce : UInt64} {fuel : Nat}
    (eight : before.length = 8) (short : rest.length + 8 ≤ 0x40000)
    (order : earlier.toInt ≤ later.toInt)
    (near : time.toInt - earlier.toInt ≤ 2430000)
    (recent : -3600 < time.toInt - later.toInt)
    (found : searchPow platform earlier fuel (before ++ rest) time.toUInt64 =
      .ok (some nonce)) :
    checkPow platform later (appendInt64 [] nonce.toInt64 ++ rest) time.toUInt64 = .ok true := by
  have length : (UInt64.ofNat rest.length).toNat = rest.length := by
    simp only [UInt64.toNat_ofNat']
    omega
  obtain ⟨payload, _⟩ := substr_eight rest eight
  obtain ⟨target, targetEq, _⟩ := @getTarget_eq (UInt64.ofNat rest.length)
    time earlier (by omega) (by omega) near
  obtain ⟨later, laterEq, grows⟩ := getTarget_mono (by omega) order near recent targetEq
  have meets : powValue platform (nonceBytes nonce ++ (platform.sha512 rest).toUString) ≤
      target := by
    simp only [searchPow, payload, targetEq, bind, Except.bind, pure, Except.pure,
      Except.ok.injEq] at found
    exact searchLoop_start_le (fun nonce => powValue platform
      (nonceBytes nonce ++ (platform.sha512 rest).toUString)) found
  have size : UInt64.ofNat (appendInt64 [] nonce.toInt64 ++ rest).length - 8 =
      UInt64.ofNat rest.length := by
    apply UInt64.toNat_inj.mp
    have eight : (8 : UInt64).toNat = 8 := by decide
    rw [UInt64.toNat_sub, eight, length]
    simp only [UInt64.toNat_ofNat', List.length_append, appendInt64_length]
    omega
  have passes : decide (powValue platform
      (nonceBytes nonce ++ (platform.sha512 rest).toUString) ≤ later) = true :=
    decide_eq_true (UInt64.le_trans meets grows)
  simp only [checkPow, doPow_nonce, size, laterEq, bind, Except.bind, passes]
  rfl

end BitMRC

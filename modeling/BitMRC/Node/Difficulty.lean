import BitMRC.Crypto.Sample
import BitMRC.Node.State
import BitMRC.Utils.UStringCodec

/-!
# The difficulty of the proof of work

`getTarget` divides `2^64` by the difficulty without ever holding `2^64`.  Its
result is exact on every object that `validateObj` hands to `checkPow`, except at
the very edge of the time window.  `checkPow` has parameters for the difficulty,
but computes the target without them.
-/

namespace BitMRC

open UString

/-! ## The target of an admitted object -/

/-- The size and time tests of `validateObj` pass. -/
def Admitted (now : Int64) (obj : Object) : Prop :=
  obj.messagePayload.length ≤ 0x40000 ∧
  ¬28 * 24 * 60 * 60 + 10800 < obj.time - now ∧
  ¬obj.time - now < -3600

instance (now : Int64) (obj : Object) : Decidable (Admitted now obj) :=
  inferInstanceAs (Decidable (_ ∧ _))

/-- Behind these tests `validateObj` is `checkPow`. -/
theorem validateObj_eq (platform : Platform) (now : Int64) (obj : Object) :
    Node.validateObj platform now obj =
      if Admitted now obj then checkPow platform now obj.messagePayload obj.time.toUInt64
      else .ok false := by
  by_cases admitted : Admitted now obj
  · obtain ⟨small, near, recent⟩ := admitted
    rw [if_pos ⟨small, near, recent⟩, Node.validateObj, if_neg (Nat.not_lt.mpr small),
      if_neg near, if_neg recent]
  · rw [if_neg admitted, Node.validateObj]
    split
    next large => rfl
    split
    next far => rfl
    split
    next old => rfl
    next small near recent => exact absurd ⟨Nat.not_lt.mp small, near, recent⟩ admitted

theorem Admitted.window {now : Int64} {obj : Object} (admitted : Admitted now obj) :
    -3600 ≤ (obj.time - now).toInt ∧ (obj.time - now).toInt ≤ 2430000 := by
  obtain ⟨_, near, recent⟩ := admitted
  have low : (-3600 : Int64).toInt = -3600 := by decide
  have high : (28 * 24 * 60 * 60 + 10800 : Int64).toInt = 2430000 := by decide
  rw [Int64.lt_iff_toInt_lt] at near recent
  rw [high] at near
  rw [low] at recent
  omega

/-- The results of the sums and products of `getTarget`, over the unbounded integers;
`ttl` is the time to live behind the first `if`. -/
def targetSteps (length ttl extrabytes noncetrials : Nat) : List Nat :=
  let product := (length + extrabytes) * ttl
  let divisor := difficultyDivisor length ttl extrabytes noncetrials
  [length + extrabytes, product, product / 0x10000 + extrabytes,
    product / 0x10000 + extrabytes + length, divisor, 2 ^ 63 / divisor * 2,
    2 ^ 63 % divisor * 2, 2 ^ 63 / divisor * 2 + 1]

/-- On this object `getTarget` divides by a number that is not zero, no step wraps
around, and the result is `2^64` divided by the exact divisor. -/
def TargetExact (now : Int64) (obj : Object) : Prop :=
  let length := obj.messagePayload.length - 8
  let ttl := obj.time.toUInt64 - now.toUInt64
  powDivisor (UInt64.ofNat obj.messagePayload.length - 8) (clampTTL ttl) 1000 1000 ≠ 0 ∧
  (∀ step ∈ targetSteps length (clampTTL ttl).toNat 1000 1000, step < 2 ^ 64) ∧
  ∃ target, getTarget (UInt64.ofNat obj.messagePayload.length - 8) ttl 1000 1000 = .ok target ∧
    target.toNat = 2 ^ 64 / exactDivisor length (clampedSeconds (obj.time - now).toInt)

/-- Times to live up to the end of the window keep every step inside 64 bits. -/
theorem targetSteps_lt {length ttl : Nat} (short : length ≤ 0x40000) (near : ttl ≤ 2430000) :
    ∀ step ∈ targetSteps length ttl 1000 1000, step < 2 ^ 64 := by
  have product : (length + 1000) * ttl ≤ (0x40000 + 1000) * 2430000 :=
    Nat.mul_le_mul (by omega) near
  have large := exactDivisor_large length ttl
  have upper := @difficultyDivisor_le length ttl 1000 1000 short (by decide) (by decide) near
  rw [exactDivisor_eq] at large
  have quotient : 2 ^ 63 / difficultyDivisor length ttl 1000 1000 ≤ 2 ^ 63 / 1000000 :=
    Nat.div_le_div_left large (by decide)
  have remainder := Nat.mod_lt (2 ^ 63)
    (show 0 < difficultyDivisor length ttl 1000 1000 by omega)
  intro step member
  simp only [targetSteps, List.mem_cons, List.not_mem_nil, or_false] at member
  omega

/-- At the edge of the window the target is far too small: the time to live enters the
product as an enormous `uint64_t`. -/
theorem getTarget_edge {length ttl : UInt64} (short : length.toNat ≤ 0x40000)
    (edge : ttl.toNat = 2 ^ 64 - 3600) :
    ∃ target, getTarget length ttl 1000 1000 = .ok target ∧
      target.toNat < 2 ^ 64 / exactDivisor length.toNat 300 := by
  obtain ⟨large, small⟩ := powDivisor_edge short edge
  obtain ⟨target, found, value⟩ := getTarget_of_divisor rfl (by omega) small
  refine ⟨target, found, ?_⟩
  have divisor : exactDivisor length.toNat 300 ≤ 2 ^ 28 := by
    unfold exactDivisor
    omega
  rw [value]
  calc 2 ^ 64 / (powDivisor length (clampTTL ttl) 1000 1000).toNat
      ≤ 2 ^ 64 / 2 ^ 57 := Nat.div_le_div_left large (by decide)
    _ < 2 ^ 64 / 2 ^ 28 := by decide
    _ ≤ 2 ^ 64 / exactDivisor length.toNat 300 := by
      apply Nat.div_le_div_left divisor
      exact Nat.lt_of_lt_of_le (by decide) (exactDivisor_large length.toNat 300)

/-- The target is exact for every object that passes the size and time tests, unless it
is exactly 3600 seconds old. -/
theorem targetExact_iff {now : Int64} {obj : Object} (eight : 8 ≤ obj.messagePayload.length)
    (admitted : Admitted now obj) : TargetExact now obj ↔ obj.time - now ≠ -3600 := by
  have length := payloadLength_toNat eight admitted.1
  have short : (UInt64.ofNat obj.messagePayload.length - 8).toNat ≤ 0x40000 := by
    have limit := admitted.1
    omega
  have difference : obj.time.toUInt64 - now.toUInt64 = (obj.time - now).toUInt64 := rfl
  obtain ⟨recent, near⟩ := admitted.window
  unfold TargetExact
  simp only [difference]
  generalize obj.time - now = seconds at recent near ⊢
  constructor
  · rintro ⟨_, _, target, found, value⟩ rfl
    obtain ⟨target', found', small⟩ :=
      @getTarget_edge _ (-3600 : Int64).toUInt64 short (by decide)
    cases found.symm.trans found'
    rw [length] at small
    exact absurd value (Nat.ne_of_lt small)
  · intro inside
    have recent : -3600 < seconds.toInt := by
      have low : (-3600 : Int64).toInt = -3600 := by decide
      refine lt_of_le_of_ne recent fun equal => inside (Int64.toInt_inj.mp ?_)
      rw [low, equal]
    obtain ⟨target, found, value⟩ := @getTarget_seconds
      (UInt64.ofNat obj.messagePayload.length - 8) 1000 1000 seconds short (by decide)
      (by decide) recent near
    have ttl := @clampTTL_eq seconds 0 (by simpa using recent) (by simpa using near)
    have bound : (clampTTL seconds.toUInt64).toNat ≤ 2430000 := by
      have zero : (0 : Int64).toUInt64 = 0 := rfl
      have none : (0 : Int64).toInt = 0 := rfl
      rw [zero, UInt64.sub_zero, none, Int.sub_zero, clampedSeconds] at ttl
      omega
    refine ⟨?_, targetSteps_lt (by omega) bound, target, found, ?_⟩
    · intro zero
      have divisor := @powDivisor_eq (UInt64.ofNat obj.messagePayload.length - 8)
        (clampTTL seconds.toUInt64) 1000 1000 short (by decide) (by decide) bound
      have large := exactDivisor_large
        (UInt64.ofNat obj.messagePayload.length - 8).toNat (clampTTL seconds.toUInt64).toNat
      have thousand : (1000 : UInt64).toNat = 1000 := by decide
      rw [zero, thousand, ← exactDivisor_eq, UInt64.toNat_zero] at divisor
      omega
    · have thousand : (1000 : UInt64).toNat = 1000 := by decide
      rwa [thousand, ← exactDivisor_eq, length] at value

/-- A msg object without content, made at the given time. -/
def agedObject (time : Int64) : Object := {
  magic := 0xe9beb4d9
  command := strncpy [111, 98, 106, 101, 99, 116] 12
  length := 22
  checksum := strncpy [] 4
  messagePayload := []
  nonce := 0
  time
  objectType := typeMsg
  objectPayload := []
  version := 1
  stream := 1 : Object }.encodePayload

theorem targetExact_iff_sample : TargetExact 1400000000 (agedObject 1400000000) ↔
    (agedObject 1400000000).time - 1400000000 ≠ -3600 :=
  targetExact_iff (by decide) (by decide)

/-- After 3600 seconds to the second the object passes the tests, with a target of 65 in
the place of one of fourteen digits. -/
theorem not_targetExact_sample :
    Admitted 1400003600 (agedObject 1400000000) ∧
      getTarget (UInt64.ofNat (agedObject 1400000000).messagePayload.length - 8)
        ((agedObject 1400000000).time.toUInt64 - (1400003600 : Int64).toUInt64) 1000 1000 =
          .ok 65 ∧
      2 ^ 64 / exactDivisor 14 300 = 18120573746276 ∧
      ¬TargetExact 1400003600 (agedObject 1400000000) := by
  have admitted : Admitted 1400003600 (agedObject 1400000000) := by decide
  refine ⟨admitted, rfl, by decide, ?_⟩
  rintro ⟨_, wraps, _⟩
  have product := wraps ((14 + 1000) * (2 ^ 64 - 3600)) (by decide)
  exact absurd product (by decide)

/-! ## The difficulty that `checkPow` is asked for -/

/-- `checkPow` with all its parameters; the last two it does not pass on. -/
def checkPowAsked (platform : Platform) (now : Int64) (data : UString)
    (ttl _extrabytes _noncetrial : UInt64) : Except Exn Bool := do
  let pow ← doPow platform data
  let target ← getTarget (UInt64.ofNat data.length - 8) (ttl - now.toUInt64) 1000 1000
  return decide (pow ≤ target)

/-- Its callers leave the defaults of the declaration in place. -/
theorem checkPow_eq (platform : Platform) (now : Int64) (data : UString) (ttl : UInt64) :
    checkPow platform now data ttl = checkPowAsked platform now data ttl 1000 1000 := rfl

/-- The largest proof-of-work value that meets the difficulty. -/
def askedTarget (length : Nat) (seconds : Int) (extrabytes noncetrial : Nat) : Nat :=
  2 ^ 64 / difficultyDivisor length (clampedSeconds seconds) extrabytes noncetrial

/-- `checkPow` answers whether the payload meets the difficulty it is asked for. -/
def Enforces (platform : Platform) (now time : Int64) (data : UString)
    (extrabytes noncetrial : UInt64) : Prop :=
  ∃ pow, doPow platform data = .ok pow ∧
    checkPowAsked platform now data time.toUInt64 extrabytes noncetrial =
      .ok (decide (pow.toNat ≤ askedTarget (data.length - 8) (time - now).toInt
        extrabytes.toNat noncetrial.toNat))

/-- What a higher difficulty accepts a lower one accepts as well. -/
def Antitone (platform : Platform) (now time : Int64) (data : UString) : Prop :=
  ∀ extrabytes noncetrial higher more : UInt64, extrabytes ≤ higher → noncetrial ≤ more →
    checkPowAsked platform now data time.toUInt64 higher more = .ok true →
    checkPowAsked platform now data time.toUInt64 extrabytes noncetrial = .ok true

section Asked

variable {now time : Int64} {data : UString} {extrabytes noncetrial : UInt64}

/-- Whatever it is asked for, `checkPow` compares with the target of the network. -/
theorem exists_checkPowAsked (platform : Platform) (eight : 8 ≤ data.length)
    (short : data.length ≤ 0x40000) (recent : 0 ≤ (time - now).toInt)
    (near : (time - now).toInt ≤ 2430000) :
    ∃ pow, doPow platform data = .ok pow ∧ ∀ extrabytes noncetrial,
      checkPowAsked platform now data time.toUInt64 extrabytes noncetrial =
        .ok (decide (pow.toNat ≤ askedTarget (data.length - 8) (time - now).toInt 1000 1000)) := by
  have length := payloadLength_toNat eight short
  have thousand : (1000 : UInt64).toNat = 1000 := by decide
  have difference : (time - now).toUInt64 = time.toUInt64 - now.toUInt64 := rfl
  obtain ⟨pow, hashed⟩ := exists_doPow platform eight
  obtain ⟨target, found, value⟩ := @getTarget_seconds (UInt64.ofNat data.length - 8) 1000 1000
    (time - now) (by omega) (by decide) (by decide) (by omega) near
  rw [length, thousand] at value
  refine ⟨pow, hashed, fun extrabytes noncetrial => ?_⟩
  rw [askedTarget, ← value, checkPowAsked, hashed, ← difference, found]
  simp only [UInt64.le_iff_toNat_le]
  rfl

/-- The difficulty of one payload is enforced unless its value lies between the target
that is asked for and the one that is used. -/
theorem enforces_iff {platform : Platform} {pow : UInt64} (eight : 8 ≤ data.length)
    (short : data.length ≤ 0x40000) (recent : 0 ≤ (time - now).toInt)
    (near : (time - now).toInt ≤ 2430000) (hashed : doPow platform data = .ok pow) :
    Enforces platform now time data extrabytes noncetrial ↔
      (pow.toNat ≤ askedTarget (data.length - 8) (time - now).toInt 1000 1000 ↔
        pow.toNat ≤ askedTarget (data.length - 8) (time - now).toInt extrabytes.toNat
          noncetrial.toNat) := by
  obtain ⟨pow', hashed', checked⟩ := exists_checkPowAsked platform eight short recent near
  cases hashed.symm.trans hashed'
  unfold Enforces
  simp [hashed, checked]

theorem antitone_checkPow (platform : Platform) (now time : Int64) (data : UString) :
    Antitone platform now time data :=
  fun _ _ _ _ _ _ accepted => accepted

end Asked

/-! ### Every value is the proof of work of some hash function -/

theorem littleEndianWord_toNat {bytes : UString} (eight : bytes.length = 8) :
    (littleEndianWord bytes).toNat = Nat.ofDigits 256 (bytes.map UInt8.toNat) := by
  have limit : 256 ^ 8 = 2 ^ 64 := by decide
  have bound := beNat_lt bytes.reverse
  rw [beNat, List.reverse_reverse, List.length_reverse, eight, limit] at bound
  rw [littleEndianWord, UInt64.toNat_ofNat', Nat.mod_eq_of_lt bound]

/-- The bytes of a word that was copied from memory. -/
theorem longLongSwap_littleEndianWord (b1 b2 b3 b4 b5 b6 b7 b8 : UInt8) :
    longLongSwap (littleEndianWord [b1, b2, b3, b4, b5, b6, b7, b8]) =
      (b1.toUInt64 <<< 56) + (b2.toUInt64 <<< 48) + (b3.toUInt64 <<< 40) +
        (b4.toUInt64 <<< 32) + (b5.toUInt64 <<< 24) + (b6.toUInt64 <<< 16) +
        (b7.toUInt64 <<< 8) + b8.toUInt64 := by
  have value := @littleEndianWord_toNat [b1, b2, b3, b4, b5, b6, b7, b8] rfl
  simp only [List.map_cons, List.map_nil, Nat.ofDigits_cons, Nat.ofDigits_nil] at value
  generalize littleEndianWord [b1, b2, b3, b4, b5, b6, b7, b8] = word at value ⊢
  have range1 := b1.toNat_lt
  have range2 := b2.toNat_lt
  have range3 := b3.toNat_lt
  have range4 := b4.toNat_lt
  have range5 := b5.toNat_lt
  have range6 := b6.toNat_lt
  have range7 := b7.toNat_lt
  have range8 := b8.toNat_lt
  have lowest : word.toUInt8 = b1 := by
    apply UInt8.toNat_inj.mp
    rw [UInt64.toNat_toUInt8]
    omega
  have shifted (k : Nat) (byte : UInt8) (small : k < 64)
      (digit : word.toNat / 2 ^ k % 256 = byte.toNat) :
      (word >>> UInt64.ofNat k).toUInt8 = byte := by
    have whole : k % 2 ^ 64 = k := Nat.mod_eq_of_lt (by omega)
    apply UInt8.toNat_inj.mp
    rw [UInt64.toNat_toUInt8, UInt64.toNat_shiftRight, UInt64.toNat_ofNat',
      Nat.shiftRight_eq_div_pow, whole, Nat.mod_eq_of_lt small]
    exact digit
  have second : (word >>> 8).toUInt8 = b2 := shifted 8 b2 (by omega) (by omega)
  have third : (word >>> 16).toUInt8 = b3 := shifted 16 b3 (by omega) (by omega)
  have fourth : (word >>> 24).toUInt8 = b4 := shifted 24 b4 (by omega) (by omega)
  have fifth : (word >>> 32).toUInt8 = b5 := shifted 32 b5 (by omega) (by omega)
  have sixth : (word >>> 40).toUInt8 = b6 := shifted 40 b6 (by omega) (by omega)
  have seventh : (word >>> 48).toUInt8 = b7 := shifted 48 b7 (by omega) (by omega)
  have eighth : (word >>> 56).toUInt8 = b8 := shifted 56 b8 (by omega) (by omega)
  simp only [longLongSwap, lowest, second, third, fourth, fifth, sixth, seventh, eighth]

theorem longLongSwap_nonceBytes (value : UInt64) :
    longLongSwap (littleEndianWord (nonceBytes value)) = value := by
  rw [nonceBytes, longLongSwap_littleEndianWord]
  exact word64_eq value

/-- A library whose hash function is constant, with this proof-of-work value. -/
def constantPow (value : UInt64) : Platform :=
  { Platform.sample with sha512 := fun _ => Platform.fit 64 (nonceBytes value) }

theorem doPow_constantPow (value : UInt64) {data : UString} (eight : 8 ≤ data.length) :
    doPow (constantPow value) data = .ok value := by
  have payload : substr data 8 data.length = .ok ((data.drop 8).take data.length) :=
    if_neg (Nat.not_lt.mpr eight)
  have nonce : substr data 0 8 = .ok ((data.drop 0).take 8) := if_neg (Nat.not_lt_zero _)
  have pow : ∀ hashed, powValue (constantPow value) hashed = value :=
    fun _ => longLongSwap_nonceBytes value
  rw [doPow, payload, nonce]
  exact congrArg Except.ok (pow _)

/-! ### When the difficulty is enforced -/

theorem askedTarget_lt {length : Nat} (seconds : Int) {extrabytes noncetrial : Nat}
    (extra : 2 ≤ extrabytes) (trials : 2 ≤ noncetrial) :
    askedTarget length seconds extrabytes noncetrial < 2 ^ 64 := by
  have divisor : 2 * 2 ≤
      difficultyDivisor length (clampedSeconds seconds) extrabytes noncetrial :=
    Nat.mul_le_mul (by omega) trials
  exact Nat.div_lt_self (by decide) (by omega)

/-- `checkPow` enforces a difficulty exactly where the target that belongs to it is the
one of the network. -/
theorem checkPow_enforces_iff {length : Nat} {now time : Int64} {extrabytes noncetrial : UInt64}
    (short : length + 8 ≤ 0x40000) (recent : 0 ≤ (time - now).toInt)
    (near : (time - now).toInt ≤ 2430000)
    (extra : 2 ≤ extrabytes.toNat ∧ extrabytes.toNat ≤ 2 ^ 20)
    (trials : 2 ≤ noncetrial.toNat ∧ noncetrial.toNat ≤ 2 ^ 20) :
    ((∀ platform data, data.length = length + 8 →
        Enforces platform now time data extrabytes noncetrial ∧
          Antitone platform now time data) ↔
      askedTarget length (time - now).toInt extrabytes.toNat noncetrial.toNat =
        askedTarget length (time - now).toInt 1000 1000) ∧
    ∀ platform data pow, data.length = length + 8 → doPow platform data = .ok pow →
      (Enforces platform now time data extrabytes noncetrial ↔
        (pow.toNat ≤ askedTarget length (time - now).toInt 1000 1000 ↔
          pow.toNat ≤ askedTarget length (time - now).toInt extrabytes.toNat
            noncetrial.toNat)) := by
  have single : ∀ platform data pow, data.length = length + 8 → doPow platform data = .ok pow →
      (Enforces platform now time data extrabytes noncetrial ↔
        (pow.toNat ≤ askedTarget length (time - now).toInt 1000 1000 ↔
          pow.toNat ≤ askedTarget length (time - now).toInt extrabytes.toNat
            noncetrial.toNat)) := by
    intro platform data pow size hashed
    have found := @enforces_iff now time data extrabytes noncetrial platform pow (by omega)
      (by omega) recent near hashed
    rwa [size, Nat.add_sub_cancel] at found
  refine ⟨?_, single⟩
  have asked := @askedTarget_lt length (time - now).toInt _ _ extra.1 trials.1
  have network := @askedTarget_lt length (time - now).toInt 1000 1000 (by decide) (by decide)
  generalize askedTarget length (time - now).toInt extrabytes.toNat noncetrial.toNat = target
    at *
  generalize askedTarget length (time - now).toInt 1000 1000 = default at *
  constructor
  · intro enforces
    -- a payload whose value is one of the two targets tells them apart
    have between : ∀ value : UInt64, value.toNat ≤ default ↔ value.toNat ≤ target := by
      intro value
      have size : (List.replicate (length + 8) (0 : UInt8)).length = length + 8 :=
        List.length_replicate
      refine (single (constantPow value) _ value size (doPow_constantPow value (by omega))).mp ?_
      exact (enforces (constantPow value) _ size).1
    have left := between (UInt64.ofNat default)
    have right := between (UInt64.ofNat target)
    rw [UInt64.toNat_ofNat', Nat.mod_eq_of_lt network] at left
    rw [UInt64.toNat_ofNat', Nat.mod_eq_of_lt asked] at right
    exact Nat.le_antisymm (right.mpr (Nat.le_refl _)) (left.mp (Nat.le_refl _))
  · rintro rfl platform data size
    obtain ⟨pow, hashed⟩ := exists_doPow platform (show 8 ≤ data.length by omega)
    exact ⟨(single platform data pow size hashed).mpr Iff.rfl, antitone_checkPow _ _ _ _⟩

theorem checkPow_enforces_iff_sample :
    ((∀ platform data, data.length = 14 + 8 →
        Enforces platform 1400000000 1400000300 data 1000 2000 ∧
          Antitone platform 1400000000 1400000300 data) ↔
      askedTarget 14 300 1000 2000 = askedTarget 14 300 1000 1000) ∧
    ∀ platform data pow, data.length = 14 + 8 → doPow platform data = .ok pow →
      (Enforces platform 1400000000 1400000300 data 1000 2000 ↔
        (pow.toNat ≤ askedTarget 14 300 1000 1000 ↔ pow.toNat ≤ askedTarget 14 300 1000 2000)) :=
  checkPow_enforces_iff (by decide) (by decide) (by decide) (by decide) (by decide)

/-- The 64 bytes of two numbers. -/
def digestOf (high low : Nat) : Block 64 := ⟨beBytes 32 high ++ beBytes 32 low, by simp⟩

/-- The SHA-512 digest of 14 zero bytes. -/
def zerosDigest : Block 64 := digestOf
  0x7cf95cde6d8d85f13497ddbabc60a56bca0abeabd2bc3e723c0a4a8c0784b14c
  0x4ee3317620b79d260d42608c8b907571499187078d14304a5e7a84bc55193ce9

/-- The SHA-512 digest of the nonce 2782748 and that digest. -/
def noncedDigest : Block 64 := digestOf
  0xeafb13a1e3d2640b9bf33400d5a80b8eca81ef580f9200acbdc0bf26ccf09a7b
  0x6c964c5841e856bb8d71ef71637dc237e68197fdea12437cb556dce31ccab434

/-- The SHA-512 digest of that one. -/
def powDigest : Block 64 := digestOf
  0x000009e5d242e7e56fa1a9f2aad836cb3b583048294d8fc084d8a64e6072f96d
  0xb86a18f169e1a44749922256296347ff43e657b0f269422ce2d0a1d61f280497

/-- SHA-512 on the inputs that `doPow` meets for this nonce in front of 14 zero bytes. -/
def Platform.sampleSHA512 (data : UString) : Block 64 :=
  if data = List.replicate 14 0 then zerosDigest
  else if data = nonceBytes 2782748 ++ zerosDigest.toUString then noncedDigest
  else if data = noncedDigest.toUString then powDigest
  else fit 64 data

/-- Asked for twice the trials, `checkPow` still accepts a value that only meets the
target of the network. -/
theorem not_enforces_sample :
    ∃ platform data, platform = { Platform.sample with sha512 := Platform.sampleSHA512 } ∧
      data = nonceBytes 2782748 ++ List.replicate 14 0 ∧
      doPow platform data = .ok 10882679760869 ∧ askedTarget 14 300 1000 2000 = 9060286873138 ∧
      checkPowAsked platform 1400000000 data 1400000300 1000 2000 = .ok true ∧
      ¬Enforces platform 1400000000 1400000300 data 1000 2000 := by
  refine ⟨_, _, rfl, rfl, ?_⟩
  have hashed : doPow { Platform.sample with sha512 := Platform.sampleSHA512 }
      (nonceBytes 2782748 ++ List.replicate 14 0) = .ok 10882679760869 := by
    decide +kernel
  refine ⟨hashed, by decide, ?_, ?_⟩
  · rw [checkPowAsked, hashed]
    rfl
  · rw [enforces_iff (by decide) (by decide) (by decide) (by decide) hashed]
    decide

end BitMRC

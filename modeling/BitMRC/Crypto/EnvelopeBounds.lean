import BitMRC.Crypto.Envelope
import BitMRC.Crypto.Sample
import BitMRC.Utils.UStringBounds

/-!
# The parts of a cipher text and the bytes around them

`PubAddr::decode` takes the lengths of both coordinates from the data, as signed numbers of
16 bits, and hands 65 bytes from the start of the assembled public key to the key
agreement, before it looks at the MAC.  This module says for which data these bytes, and
the parts themselves, lie where they belong.
-/

namespace BitMRC

open Foundation UString

/-! ## The parts -/

/-- What `decode` has read in front of the key agreement, and where the last two parts
begin in the data. -/
structure EnvelopeParts where
  head : EnvelopeHead
  cipherAt : Nat
  cipherText : UString
  macAt : Nat
  mac : UString

namespace EnvelopeParts

/-- `pubK`. -/
def pubK (parts : EnvelopeParts) : UString := 4 :: (parts.head.x ++ parts.head.y)

/-- The rest of `decode`, from the key agreement on. -/
def openWith (platform : Platform) (parts : EnvelopeParts) (data privK : UString) :
    Except Exn UString :=
  match platform.agree (beNat (platform.cBytes privK 0 32).toUString)
      (platform.cBytes parts.pubK 0 65) with
  | none => throw (.runtimeError "Failed to reach shared secret (A)")
  | some sharedA => do
      let keys := sessionKeys platform sharedA
      let macPlain ← (getUstring (toInt ((data.length : Int) - 32))).value data 0
      if (platform.hmacSHA256 keys.hkey macPlain).toUString ≠ parts.mac then
        throw (.runtimeError "mac doesnt match")
      match platform.aesDecrypt keys.key (platform.cBytes parts.head.iv 0 16)
          parts.cipherText with
      | none => throw (.runtimeError "CryptoPP::Exception")
      | some recovered => return recovered

/-- The key agreement gets bytes of the public key only, the IV fills its array, and cipher
text and MAC are parts of the data without a byte in common. -/
structure InBounds (parts : EnvelopeParts) (data : UString) : Prop where
  pubK_length : 65 ≤ parts.pubK.length
  iv_length : parts.head.iv.length = 16
  cipherText_eq : parts.cipherText = (data.drop parts.cipherAt).take parts.cipherText.length
  mac_eq : parts.mac = (data.drop parts.macAt).take parts.mac.length
  apart : parts.cipherText = [] ∨ parts.mac = [] ∨
    parts.cipherAt + parts.cipherText.length ≤ parts.macAt ∨
    parts.macAt + parts.mac.length ≤ parts.cipherAt

end EnvelopeParts

/-- `readEnvelope` with the positions of the parts. -/
def readParts : Reader EnvelopeParts := do
  let head ← readEnvelopeHead
  let data ← Cursor.buffer
  let cipherAt ← Cursor.position
  let cipherText ← getUstring (toInt ((data.length : Int) - ((cipherAt + 32) % 2 ^ 32 : Nat)))
  let macAt ← Cursor.position
  let mac ← getUstring 32
  return { head, cipherAt, cipherText, macAt, mac }

theorem readEnvelope_eq : readEnvelope =
    (readParts >>= fun parts => pure (parts.head, parts.cipherText, parts.mac)) := by
  unfold readEnvelope readParts readCipherText
  simp only [bind_assoc, pure_bind]
  rfl

/-- `decode` reads the parts and goes on with them. -/
theorem decode_eq (platform : Platform) (data privK : UString) :
    decode platform data privK =
      readParts.value data 0 >>= fun parts => parts.openWith platform data privK := by
  unfold decode
  rw [readEnvelope_eq]
  unfold Cursor.value
  rw [Cursor.bind_apply]
  cases readParts data 0 with
  | error failure => rfl
  | ok found => rfl

/-! ## The positions -/

/-- The two lengths, and where the second coordinate begins and ends. -/
structure Layout (data : UString) (xlen ylen : Int16) (p q : Nat) : Prop where
  xlen_read : getInt16 data 18 = .ok (xlen, 20)
  ylen_read : getInt16 data (advance 20 xlen.toInt) = .ok (ylen, p)
  p_le : p ≤ data.length
  q_eq : q = advance p ylen.toInt
  q_le : q ≤ data.length

/-- The `int` that the cipher text at `q` is read with. -/
def cipherLength (size q : Nat) : Int := toInt ((size : Int) - ((q + 32) % 2 ^ 32 : Nat))

theorem getInt16_eq_ok {s : UString} {i stop : Nat} {value : Int16}
    (read : getInt16 s i = .ok (value, stop)) :
    i < s.length ∧ advance i 1 < s.length ∧ stop = advance (advance i 1) 1 := by
  obtain ⟨b2, middle, high, read⟩ := Cursor.bind_eq_ok.mp read
  obtain ⟨b1, last, low, read⟩ := Cursor.bind_eq_ok.mp read
  cases read
  obtain ⟨inside, _, rfl⟩ := getInt8_eq_ok.mp high
  obtain ⟨insideLow, _, rfl⟩ := getInt8_eq_ok.mp low
  exact ⟨inside, insideLow, rfl⟩

/-- Two bytes inside the string make a number. -/
theorem exists_getInt16 {s : UString} {i : Nat} (inside : i < s.length)
    (insideLow : advance i 1 < s.length) :
    ∃ value, getInt16 s i = .ok (value, advance (advance i 1) 1) := by
  unfold getInt16
  rw [Cursor.bind_of_ok (dif_pos inside : getInt8 s i = _),
    Cursor.bind_of_ok (dif_pos insideLow : getInt8 s (advance i 1) = _)]
  exact ⟨_, rfl⟩

/-- The head is read if both lengths are and both coordinates begin inside the data. -/
theorem readEnvelopeHead_eq_ok {data : UString} {head : EnvelopeHead} {q : Nat} :
    (readEnvelopeHead data 0 = .ok (head, q) ∧ q ≤ data.length) ↔
      ∃ xlen ylen p, Layout data xlen ylen p q ∧ head = {
        iv := data.take 16
        x := (data.drop 20).take (sizeT xlen.toInt)
        y := (data.drop p).take (sizeT ylen.toInt) } := by
  constructor
  · rintro ⟨read, q_le⟩
    obtain ⟨iv, _, readIv, read⟩ := Cursor.bind_eq_ok.mp read
    obtain ⟨_, rfl, rfl⟩ := getUstring_eq_ok.mp readIv
    obtain ⟨curveType, _, readCurve, read⟩ := Cursor.bind_eq_ok.mp read
    obtain ⟨_, _, rfl⟩ := getInt16_eq_ok readCurve
    obtain ⟨xlen, _, readXlen, read⟩ := Cursor.bind_eq_ok.mp read
    obtain ⟨_, _, rfl⟩ := getInt16_eq_ok readXlen
    obtain ⟨x, _, readX, read⟩ := Cursor.bind_eq_ok.mp read
    obtain ⟨_, rfl, rfl⟩ := getUstring_eq_ok.mp readX
    obtain ⟨ylen, p, readYlen, read⟩ := Cursor.bind_eq_ok.mp read
    obtain ⟨y, _, readY, read⟩ := Cursor.bind_eq_ok.mp read
    obtain ⟨p_le, rfl, rfl⟩ := getUstring_eq_ok.mp readY
    cases read
    exact ⟨xlen, ylen, p, ⟨readXlen, readYlen, p_le, rfl, q_le⟩, rfl⟩
  · rintro ⟨xlen, ylen, p, layout, rfl⟩
    obtain ⟨_, inside, _⟩ := getInt16_eq_ok layout.xlen_read
    have twenty : 19 < data.length := inside
    obtain ⟨curveType, readCurve⟩ := @exists_getInt16 data 16 (by omega)
      (Nat.lt_trans (by decide : advance 16 1 < 19) twenty)
    have readIv : getUstring 16 data 0 = .ok (data.take 16, 16) :=
      getUstring_eq_ok.mpr ⟨Nat.zero_le _, rfl, rfl⟩
    have readX : getUstring xlen.toInt data 20 = .ok ((data.drop 20).take (sizeT xlen.toInt),
        advance 20 xlen.toInt) := getUstring_eq_ok.mpr ⟨by omega, rfl, rfl⟩
    have readY : getUstring ylen.toInt data p = .ok ((data.drop p).take (sizeT ylen.toInt), q) :=
      getUstring_eq_ok.mpr ⟨layout.p_le, rfl, layout.q_eq⟩
    refine ⟨?_, layout.q_le⟩
    unfold readEnvelopeHead
    rw [Cursor.bind_of_ok readIv, Cursor.bind_of_ok readCurve]
    refine Eq.trans (Cursor.bind_of_ok layout.xlen_read) ?_
    rw [Cursor.bind_of_ok readX, Cursor.bind_of_ok layout.ylen_read, Cursor.bind_of_ok readY]
    rfl

/-- The parts are read if the head is, and the MAC then begins inside the data. -/
theorem readParts_eq_ok {data : UString} {parts : EnvelopeParts} :
    readParts.value data 0 = .ok parts ↔
      ∃ xlen ylen p q, Layout data xlen ylen p q ∧
        advance q (cipherLength data.length q) ≤ data.length ∧ parts = {
          head := {
            iv := data.take 16
            x := (data.drop 20).take (sizeT xlen.toInt)
            y := (data.drop p).take (sizeT ylen.toInt) }
          cipherAt := q
          cipherText := (data.drop q).take (sizeT (cipherLength data.length q))
          macAt := advance q (cipherLength data.length q)
          mac := (data.drop (advance q (cipherLength data.length q))).take 32 } := by
  rw [Cursor.value_eq_ok]
  constructor
  · rintro ⟨stop, read⟩
    obtain ⟨head, q, readHead, read⟩ := Cursor.bind_eq_ok.mp read
    obtain ⟨_, _, ⟨⟩, read⟩ := Cursor.bind_eq_ok.mp read
    obtain ⟨_, _, ⟨⟩, read⟩ := Cursor.bind_eq_ok.mp read
    obtain ⟨cipherText, _, readCipher, read⟩ := Cursor.bind_eq_ok.mp read
    obtain ⟨q_le, rfl, rfl⟩ := getUstring_eq_ok.mp readCipher
    obtain ⟨_, _, ⟨⟩, read⟩ := Cursor.bind_eq_ok.mp read
    obtain ⟨mac, _, readMac, read⟩ := Cursor.bind_eq_ok.mp read
    obtain ⟨mac_le, rfl, rfl⟩ := getUstring_eq_ok.mp readMac
    cases read
    obtain ⟨xlen, ylen, p, layout, rfl⟩ := readEnvelopeHead_eq_ok.mp ⟨readHead, q_le⟩
    exact ⟨xlen, ylen, p, q, layout, mac_le, rfl⟩
  · rintro ⟨xlen, ylen, p, q, layout, mac_le, rfl⟩
    obtain ⟨readHead, q_le⟩ := readEnvelopeHead_eq_ok.mpr ⟨xlen, ylen, p, layout, rfl⟩
    have readCipher : getUstring (toInt ((data.length : Int) - ((q + 32) % 2 ^ 32 : Nat))) data q =
        .ok ((data.drop q).take (sizeT (cipherLength data.length q)),
          advance q (cipherLength data.length q)) := getUstring_eq_ok.mpr ⟨q_le, rfl, rfl⟩
    have readMac : getUstring 32 data (advance q (cipherLength data.length q)) =
        .ok ((data.drop (advance q (cipherLength data.length q))).take 32,
          advance (advance q (cipherLength data.length q)) 32) :=
      getUstring_eq_ok.mpr ⟨mac_le, rfl, rfl⟩
    refine ⟨advance (advance q (cipherLength data.length q)) 32, ?_⟩
    refine Eq.trans (Cursor.bind_of_ok readHead) ?_
    refine Eq.trans (Cursor.bind_of_ok rfl) ?_
    refine Eq.trans (Cursor.bind_of_ok rfl) ?_
    refine Eq.trans (Cursor.bind_of_ok readCipher) ?_
    refine Eq.trans (Cursor.bind_of_ok rfl) ?_
    exact Cursor.bind_of_ok readMac

/-! ## Parts in bounds -/

/-- Cipher text and MAC have no byte in common, for data of any size. -/
def TailApart (size q : Nat) : Prop :=
  let macAt := advance q (cipherLength size q)
  let count := min (sizeT (cipherLength size q)) (size - q)
  count = 0 ∨ macAt = size ∨ q + count ≤ macAt ∨ macAt + min 32 (size - macAt) ≤ q

/-- If the size is an `int`, the MAC needs 32 bytes behind the coordinates, unless these
end with the data: then the cipher text is empty. -/
theorem tailApart_iff {size q : Nat} (short : size < intLimit) (q_le : q ≤ size)
    (mac_le : advance q (cipherLength size q) ≤ size) :
    TailApart size q ↔ q + 32 ≤ size ∨ q = size := by
  simp only [intLimit] at short
  have length : cipherLength size q = (size : Int) - (q + 32) := by
    unfold cipherLength toInt
    rw [Int.bmod_def]
    omega
  have macAt : advance q (cipherLength size q) = size - 32 ∧ 32 ≤ size := by
    rw [length] at mac_le ⊢
    unfold advance at mac_le ⊢
    omega
  obtain ⟨macAt, enough⟩ := macAt
  have count : sizeT (cipherLength size q) =
      if q + 32 ≤ size then size - (q + 32) else 2 ^ 64 + size - (q + 32) := by
    rw [length, sizeT]
    split <;> omega
  unfold TailApart
  rw [macAt, count]
  split <;> omega

/-- Where the parse does not throw, both coordinates together have at least 64 bytes, and
behind them there is room for the MAC or nothing at all. -/
def EnvelopeFits (data : UString) : Prop :=
  ∀ xlen ylen p q, Layout data xlen ylen p q →
    advance q (cipherLength data.length q) ≤ data.length →
    64 ≤ min (sizeT xlen.toInt) (data.length - 20) + min (sizeT ylen.toInt) (data.length - p) ∧
      if data.length < intLimit then q + 32 ≤ data.length ∨ q = data.length
      else TailApart data.length q

theorem take_take_length (s : UString) (n : Nat) : s.take n = s.take (s.take n).length := by
  rw [List.length_take, ← List.take_take, List.take_length]

theorem inBounds_iff {data : UString} {xlen ylen : Int16} {p q : Nat}
    (layout : Layout data xlen ylen p q)
    (mac_le : advance q (cipherLength data.length q) ≤ data.length) :
    EnvelopeParts.InBounds {
        head := {
          iv := data.take 16
          x := (data.drop 20).take (sizeT xlen.toInt)
          y := (data.drop p).take (sizeT ylen.toInt) }
        cipherAt := q
        cipherText := (data.drop q).take (sizeT (cipherLength data.length q))
        macAt := advance q (cipherLength data.length q)
        mac := (data.drop (advance q (cipherLength data.length q))).take 32 } data ↔
      64 ≤ min (sizeT xlen.toInt) (data.length - 20) +
          min (sizeT ylen.toInt) (data.length - p) ∧ TailApart data.length q := by
  obtain ⟨_, inside, _⟩ := getInt16_eq_ok layout.xlen_read
  have twenty : 19 < data.length := inside
  constructor
  · rintro ⟨pubK, _, _, _, apart⟩
    simp only [EnvelopeParts.pubK, List.length_cons, List.length_append, List.length_take,
      List.length_drop, ← List.length_eq_zero_iff] at pubK apart
    refine ⟨by omega, ?_⟩
    unfold TailApart
    omega
  · rintro ⟨coordinates, apart⟩
    constructor
    · simp only [EnvelopeParts.pubK, List.length_cons, List.length_append, List.length_take,
        List.length_drop]
      omega
    · simp only [List.length_take]
      omega
    · exact take_take_length _ _
    · exact take_take_length _ _
    · unfold TailApart at apart
      simp only [← List.length_eq_zero_iff, List.length_take, List.length_drop]
      omega

theorem envelopeFits_iff (data : UString) :
    EnvelopeFits data ↔
      ∀ parts, readParts.value data 0 = .ok parts → parts.InBounds data := by
  have tail {xlen ylen : Int16} {p q : Nat} (layout : Layout data xlen ylen p q)
      (mac_le : advance q (cipherLength data.length q) ≤ data.length) :
      (if data.length < intLimit then q + 32 ≤ data.length ∨ q = data.length
        else TailApart data.length q) ↔ TailApart data.length q := by
    split
    next short => exact (tailApart_iff short layout.q_le mac_le).symm
    next => rfl
  constructor
  · intro fits parts read
    obtain ⟨xlen, ylen, p, q, layout, mac_le, rfl⟩ := readParts_eq_ok.mp read
    obtain ⟨coordinates, apart⟩ := fits xlen ylen p q layout mac_le
    exact (inBounds_iff layout mac_le).mpr ⟨coordinates, (tail layout mac_le).mp apart⟩
  · intro bounded xlen ylen p q layout mac_le
    have read := readParts_eq_ok.mpr ⟨xlen, ylen, p, q, layout, mac_le, rfl⟩
    obtain ⟨coordinates, apart⟩ := (inBounds_iff layout mac_le).mp (bounded _ read)
    exact ⟨coordinates, (tail layout mac_le).mpr apart⟩

/-- `decode` throws in front of the key agreement or its parts are in bounds, if and only
if the data fits. -/
theorem decode_inBounds_iff (platform : Platform) (data privK : UString) :
    ((∃ failure, readParts.value data 0 = .error failure ∧
        decode platform data privK = .error failure) ∨
      ∃ parts, readParts.value data 0 = .ok parts ∧
        decode platform data privK = parts.openWith platform data privK ∧
        parts.InBounds data) ↔ EnvelopeFits data := by
  rw [envelopeFits_iff, decode_eq]
  cases read : readParts.value data 0 with
  | error failure =>
      refine iff_of_true (.inl ⟨failure, rfl, rfl⟩) ?_
      intro parts found
      cases found
  | ok parts =>
      constructor
      · rintro (⟨failure, throws, _⟩ | ⟨same, found, _, bounded⟩)
        · cases throws
        · cases found
          intro other again
          cases again
          exact bounded
      · intro bounded
        exact .inr ⟨parts, rfl, rfl, bounded parts rfl⟩

/-- In 54 zero bytes both coordinates are empty: 64 bytes behind the only byte of the
public key go into the key agreement. -/
theorem not_decode_inBounds :
    ¬((∃ failure, readParts.value (List.replicate 54 0) 0 = .error failure ∧
        decode Platform.sample (List.replicate 54 0) (List.replicate 32 1) = .error failure) ∨
      ∃ parts, readParts.value (List.replicate 54 0) 0 = .ok parts ∧
        decode Platform.sample (List.replicate 54 0) (List.replicate 32 1) =
          parts.openWith Platform.sample (List.replicate 54 0) (List.replicate 32 1) ∧
        parts.InBounds (List.replicate 54 0)) := by
  rintro (⟨failure, throws, _⟩ | ⟨parts, read, _, bounded⟩)
  · cases throws
  · cases read
    exact absurd bounded.pubK_length (by decide)

end BitMRC

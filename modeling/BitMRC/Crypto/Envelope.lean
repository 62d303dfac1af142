import BitMRC.Crypto.Platform
import BitMRC.Utils.UStringCodec

/-!
# `PubAddr::encode` and `PubAddr::decode`

The encrypted form of every object: IV, curve type, the coordinates of the
ephemeral key with their lengths, cipher text and MAC.  `encode` writes
coordinates of 32 bytes; `decode` believes the lengths it reads.
-/

namespace BitMRC

open Foundation UString

/-- The AES key and the HMAC key. -/
structure SessionKeys where
  key : Block 32
  hkey : Block 32

/-- Both halves of the hash of the value that ECDH agreed on. -/
def sessionKeys (platform : Platform) (shared : Block 32) : SessionKeys :=
  let h := platform.sha512 shared.toUString
  { key := h.slice 0 32 (by decide), hkey := h.slice 32 32 (by decide) }

/-- The fields `decode` reads in front of the cipher text. -/
structure EnvelopeHead where
  iv : UString
  x : UString
  y : UString

def readEnvelopeHead : Reader EnvelopeHead := do
  let iv ← getUstring 16
  let _curveType ← getInt16
  let xlen ← getInt16
  let x ← getUstring xlen.toInt
  let ylen ← getInt16
  let y ← getUstring ylen.toInt
  return { iv, x, y }

/-- `data.getUstring(data.size() - (p + 32), p)` and `data.getUstring(32, p)`. -/
def readCipherText : Reader (UString × UString) := do
  let data ← Cursor.buffer
  let p ← Cursor.position
  let cipherText ← getUstring (toInt ((data.length : Int) - ((p + 32) % 2 ^ 32 : Nat)))
  let mac ← getUstring 32
  return (cipherText, mac)

def readEnvelope : Reader (EnvelopeHead × UString × UString) := do
  let head ← readEnvelopeHead
  let tail ← readCipherText
  return (head, tail)

/-- `PubAddr::decode`. -/
def decode (platform : Platform) (data privK : UString) : Except Exn UString := do
  let (head, cipherText, mac) ← readEnvelope.value data 0
  let pubK : UString := 4 :: (head.x ++ head.y)
  match platform.agree (beNat (platform.cBytes privK 0 32).toUString)
      (platform.cBytes pubK 0 65) with
  | none => throw (.runtimeError "Failed to reach shared secret (A)")
  | some sharedA =>
      let keys := sessionKeys platform sharedA
      let macPlain ← (getUstring (toInt ((data.length : Int) - 32))).value data 0
      if (platform.hmacSHA256 keys.hkey macPlain).toUString ≠ mac then
        throw (.runtimeError "mac doesnt match")
      match platform.aesDecrypt keys.key (platform.cBytes head.iv 0 16) cipherText with
      | none => throw (.runtimeError "CryptoPP::Exception")
      | some recovered => return recovered

/-- What `encode` puts in front of the MAC. -/
def envelopeBody (platform : Platform) (iv : Block 16) (pubKB encoded : UString) : UString :=
  let result := appendInt16 iv.toUString 714
  let result := appendInt16 result 32 ++ (platform.cBytes pubKB 1 32).toUString
  let result := appendInt16 result 32 ++ (platform.cBytes pubKB 33 32).toUString
  result ++ encoded

/-- `PubAddr::encode`; `iv` is the block the random pool draws. -/
def encode (platform : Platform) (iv : Block 16) (pubKA privKB pubKB plain : UString) :
    Except Exn UString :=
  match platform.agree (beNat (platform.cBytes privKB 0 32).toUString)
      (platform.cBytes pubKA 0 65) with
  | none => throw (.runtimeError "Failed to reach shared secret (A)")
  | some sharedA =>
      let keys := sessionKeys platform sharedA
      let encoded := platform.aesEncrypt keys.key iv plain
      let result := envelopeBody platform iv pubKB encoded
      .ok (result ++ (platform.hmacSHA256 keys.hkey result).toUString)

/-! ## What `encode` writes is read back -/

variable {platform : Platform}

theorem envelopeBody_eq (platform : Platform) (iv : Block 16) (point : Point) (encoded : UString) :
    envelopeBody platform iv point.encode.toUString encoded =
      (iv.toUString ++ (appendInt16 [] 714 ++ (appendInt16 [] 32 ++ (beBytes 32 point.x ++
        (appendInt16 [] 32 ++ beBytes 32 point.y))))) ++ encoded := by
  have x : (platform.cBytes point.encode.toUString 1 32).toUString = beBytes 32 point.x := by
    rw [platform.cBytes_of_le (by simp)]
    exact List.take_left' (beBytes_length 32 point.x)
  have y : (platform.cBytes point.encode.toUString 33 32).toUString = beBytes 32 point.y := by
    rw [platform.cBytes_of_le (by simp)]
    have skip : point.encode.toUString.drop 33 = beBytes 32 point.y := by
      have drop := @List.drop_left' _ _ (beBytes 32 point.y) _ (beBytes_length 32 point.x)
      exact drop
    rw [skip, List.take_of_length_le (by simp)]
  rw [envelopeBody, x, y, appendInt16_eq, appendInt16_eq (appendInt16 _ _),
    appendInt16_eq iv.toUString]
  simp only [List.append_assoc]

theorem envelopeBody_length (iv : Block 16) (pubKB encoded : UString) :
    (envelopeBody platform iv pubKB encoded).length = 86 + encoded.length := by
  simp [envelopeBody, appendInt16, appendInt8]
  omega

/-- An envelope is between 119 and 134 bytes longer than its text. -/
theorem encode_length {iv : Block 16} {pubKA privKB pubKB plain data : UString}
    (encoded : encode platform iv pubKA privKB pubKB plain = .ok data) :
    plain.length + 119 ≤ data.length ∧ data.length ≤ plain.length + 134 := by
  unfold encode at encoded
  split at encoded
  next => cases encoded
  next shared _ =>
    cases encoded
    have length := platform.aesEncrypt_length (sessionKeys platform shared).key iv plain
    rw [List.length_append, envelopeBody_length, length, Block.toUString_length]
    omega

theorem readEnvelopeHead_decodes (iv : Block 16) (point : Point) :
    Cursor.Decodes intLimit readEnvelopeHead
      (iv.toUString ++ (appendInt16 [] 714 ++ (appendInt16 [] 32 ++ (beBytes 32 point.x ++
        (appendInt16 [] 32 ++ beBytes 32 point.y)))))
      ⟨iv.toUString, beBytes 32 point.x, beBytes 32 point.y⟩ := by
  apply (getUstring_decodes_of_length _ _ (by simp)).bind
  apply (getInt16_decodes 714).bind
  apply (getInt16_decodes 32).bind
  apply (getUstring_decodes_of_length _ (beBytes 32 point.x) (by simp)).bind
  apply (getInt16_decodes 32).bind
  exact (getUstring_decodes_of_length _ (beBytes 32 point.y) (by simp)).map
    fun y => (⟨iv.toUString, beBytes 32 point.x, y⟩ : EnvelopeHead)

/-- The cipher text is all but the last 32 bytes of what follows. -/
theorem readCipherText_apply (before cipherText : UString) (mac : Block 32)
    (short : (before ++ (cipherText ++ mac.toUString)).length < intLimit) :
    readCipherText (before ++ (cipherText ++ mac.toUString)) before.length =
      .ok ((cipherText, mac.toUString), before.length + (cipherText.length + 32)) := by
  have bound : before.length + (cipherText.length + 32) < intLimit := by simpa using short
  simp only [intLimit] at bound
  have len : toInt (((before ++ (cipherText ++ mac.toUString)).length : Int) -
      ((before.length + 32) % 2 ^ 32 : Nat)) = cipherText.length := by
    unfold toInt
    simp only [List.length_append, Block.toUString_length]
    rw [Int.bmod_def]
    omega
  have first := getUstring_decodes cipherText before mac.toUString short
  have second := getUstring_decodes_of_length 32 mac.toUString (by simp)
    (before ++ cipherText) [] (by simpa using short)
  simp only [List.append_nil, List.append_assoc, List.length_append, Block.toUString_length]
    at second
  unfold readCipherText
  simp only [Cursor.bind_apply, Cursor.buffer, Cursor.position, len, first, second,
    Cursor.pure_apply, Nat.add_assoc]

/-- Behind a head that `encode` wrote, all but the last 32 bytes are the cipher text. -/
theorem readEnvelope_body (iv : Block 16) (point : Point) (cipherText : UString) (mac : Block 32)
    (short : (envelopeBody platform iv point.encode.toUString cipherText ++
      mac.toUString).length < intLimit) :
    readEnvelope.value (envelopeBody platform iv point.encode.toUString cipherText ++
        mac.toUString) 0 =
      .ok (⟨iv.toUString, beBytes 32 point.x, beBytes 32 point.y⟩, cipherText, mac.toUString) := by
  rw [envelopeBody_eq] at short ⊢
  generalize headEq : iv.toUString ++ (appendInt16 [] 714 ++ (appendInt16 [] 32 ++
    (beBytes 32 point.x ++ (appendInt16 [] 32 ++ beBytes 32 point.y)))) = head at short ⊢
  rw [List.append_assoc] at short ⊢
  have first := (readEnvelopeHead_decodes iv point).from_start
  rw [headEq] at first
  have second := readCipherText_apply head cipherText mac short
  refine Cursor.value_eq_ok.mpr ⟨head.length + (cipherText.length + 32), ?_⟩
  unfold readEnvelope
  rw [Cursor.bind_of_ok (first _ short), Cursor.bind_of_ok second, Cursor.pure_apply]

/-- The MAC is computed over all but the last 32 bytes. -/
theorem getUstring_body (body : UString) (mac : Block 32)
    (short : (body ++ mac.toUString).length < intLimit) :
    (getUstring (toInt (((body ++ mac.toUString).length : Int) - 32))).value
      (body ++ mac.toUString) 0 = .ok body := by
  have len : toInt (((body ++ mac.toUString).length : Int) - 32) = body.length := by
    simp only [intLimit, List.length_append, Block.toUString_length] at short ⊢
    unfold toInt
    rw [Int.bmod_def]
    omega
  rw [len]
  exact Cursor.value_of_ok ((getUstring_decodes body).from_start mac.toUString short)

/-- With the value that the recipient agrees on, `decode` compares the MAC of what `encode`
puts in front of it, and then decrypts. -/
theorem decode_body {privK : UString} {iv : Block 16} {point : Point} {cipherText : UString}
    {mac shared : Block 32}
    (receiver : platform.agree (beNat (platform.cBytes privK 0 32).toUString)
      point.encode = some shared)
    (short : (envelopeBody platform iv point.encode.toUString cipherText ++
      mac.toUString).length < intLimit) :
    decode platform
        (envelopeBody platform iv point.encode.toUString cipherText ++ mac.toUString) privK =
      if platform.hmacSHA256 (sessionKeys platform shared).hkey
          (envelopeBody platform iv point.encode.toUString cipherText) ≠ mac then
        .error (.runtimeError "mac doesnt match")
      else
        match platform.aesDecrypt (sessionKeys platform shared).key iv cipherText with
        | none => .error (.runtimeError "CryptoPP::Exception")
        | some recovered => .ok recovered := by
  have read := readEnvelope_body iv point cipherText mac short
  have macPlain := getUstring_body _ mac short
  generalize envelopeBody platform iv point.encode.toUString cipherText = body at read macPlain ⊢
  have pubK : platform.cBytes (4 :: (beBytes 32 point.x ++ beBytes 32 point.y)) 0 65 =
      point.encode := platform.cBytes_block point.encode
  have compare (left : Block 32) : left.toUString ≠ mac.toUString ↔ left ≠ mac :=
    not_congr ⟨Block.ext, congrArg Block.toUString⟩
  simp only [decode, read, bind, Except.bind, pubK, receiver, macPlain, platform.cBytes_block,
    compare]
  split
  next => rfl
  next =>
    cases platform.aesDecrypt (sessionKeys platform shared).key iv cipherText with
    | none => rfl
    | some recovered => rfl

/-- Decryption undoes encryption when both sides agree on the same value. -/
theorem decode_encode (correct : platform.Correct) {iv : Block 16} {pubKA privKA privKB : UString}
    {point : Point} {plain data : UString} {shared : Block 32}
    (sender : platform.agree (beNat (platform.cBytes privKB 0 32).toUString)
      (platform.cBytes pubKA 0 65) = some shared)
    (receiver : platform.agree (beNat (platform.cBytes privKA 0 32).toUString)
      point.encode = some shared)
    (encoded : encode platform iv pubKA privKB point.encode.toUString plain = .ok data)
    (short : data.length < intLimit) :
    decode platform data privKA = .ok plain := by
  unfold encode at encoded
  rw [sender] at encoded
  cases encoded
  rw [decode_body receiver short, if_neg (not_not_intro rfl), correct.decrypt_encrypt]

end BitMRC

import BitMRC.Address.RoundTrip
import BitMRC.Crypto.Sample

/-!
# Signed and encrypted texts

What `sealText` writes is opened again by whoever holds the private key, and its
signature verifies under the public key of the signer.
-/

namespace BitMRC

open Foundation UString

variable {platform : Platform}

/-! ## Keys -/

theorem minEncodedSize_le {n : Nat} (small : n < 256 ^ 32) : minEncodedSize n ≤ 32 := by
  unfold minEncodedSize
  by_cases zero : n = 0
  · simp [zero]
  · have bits : n.log2 < 256 := (Nat.log2_lt zero).mpr (by simpa using small)
    omega

/-- A public part of 65 bytes has both coordinates at full width. -/
theorem fullWidth_of_length {priv : UString} (length : (getPubOfPriv platform priv).length = 65) :
    (platform.publicPoint (beNat priv)).FullWidth := by
  have x := minEncodedSize_le (platform.publicPoint (beNat priv)).x_lt
  have y := minEncodedSize_le (platform.publicPoint (beNat priv)).y_lt
  simp only [getPubOfPriv, Point.minimal, List.length_cons, List.length_append,
    beBytes_length] at length
  constructor <;> omega

/-- At full width `getPubOfPriv` is the uncompressed form of the public key. -/
theorem getPubOfPriv_eq {priv : UString}
    (full : (platform.publicPoint (beNat priv)).FullWidth) :
    getPubOfPriv platform priv = (platform.publicPoint (beNat priv)).encode.toUString := by
  simp only [getPubOfPriv, Point.minimal, full.1, full.2]
  rfl

/-- What encryption for such a key reads of it. -/
theorem cBytes_getPubOfPriv {priv : UString}
    (full : (platform.publicPoint (beNat priv)).FullWidth) :
    platform.cBytes (getPubOfPriv platform priv) 0 65 =
      (platform.publicPoint (beNat priv)).encode := by
  rw [getPubOfPriv_eq full, platform.cBytes_block]

theorem Point.decode_cBytes (point : Point) :
    Point.decode (platform.cBytes (beBytes 32 point.x) 0 32)
      (platform.cBytes (beBytes 32 point.y) 0 32) = point := by
  have x := Nat.mod_eq_of_lt point.x_lt
  have y := Nat.mod_eq_of_lt point.y_lt
  simp only [Point.decode, platform.cBytes_self (beBytes_length 32 _), beNat_beBytes, x, y]

theorem readPoint_decodes (platform : Platform) (point : Point) :
    Cursor.Decodes intLimit (readPoint platform) point.coordinates point := by
  have last : Cursor.Decodes intLimit (getUstring 32) (beBytes 32 point.y) (beBytes 32 point.y) :=
    getUstring_decodes_of_length 32 _ (by simp)
  have y := last.map fun yA => Point.decode (platform.cBytes (beBytes 32 point.x) 0 32)
    (platform.cBytes yA 0 32)
  rw [Point.decode_cBytes] at y
  exact (getUstring_decodes_of_length 32 (beBytes 32 point.x) (by simp)).bind y

/-- The point behind the prefix of an uncompressed key. -/
theorem readPoint_encode (platform : Platform) (point : Point) :
    (readPoint platform).value point.encode.toUString 1 = .ok point := by
  have found := readPoint_decodes platform point [4] [] (by simp [intLimit])
  rw [List.append_nil] at found
  exact Cursor.value_of_ok found

/-- The 64 bytes of a key without its prefix, as they stand in every text. -/
theorem cBytes_encode (point : Point) :
    (platform.cBytes point.encode.toUString 1 64).toUString = point.coordinates := by
  rw [platform.cBytes_of_le (by simp)]
  exact List.take_of_length_le (by simp [Point.encode, Block.toUString])

/-! ## Envelopes -/

variable {draws : Draws platform}

theorem Draws.beNat_privEKey :
    beNat (platform.cBytes draws.privEKey 0 32).toUString = draws.ephemeral := by
  rw [Draws.privEKey, platform.cBytes_self (beBytes_length 32 _), beNat_beBytes,
    Nat.mod_eq_of_lt draws.ephemeral_lt]

variable {priv header text pubKA data : UString}

section Recipient

variable (correct : platform.Correct) {privKA : UString}
  (full : (platform.publicPoint (beNat privKA)).FullWidth)
include correct full

/-- Encryption for a key at full width does not fail, and its private key decrypts. -/
theorem exists_encode (draws : Draws platform) (plain : UString) (own32 : privKA.length = 32) :
    ∃ data, encode platform draws.iv (getPubOfPriv platform privKA) draws.privEKey
        draws.pubEKey plain = .ok data ∧
      (data.length < intLimit → decode platform data privKA = .ok plain) := by
  have key := cBytes_getPubOfPriv full
  obtain ⟨shared, sender, receiver⟩ := correct.agree_symm draws.ephemeral (beNat privKA)
    draws.ephemeral_valid full.not_identity
  have encoded : ∃ data, encode platform draws.iv (getPubOfPriv platform privKA) draws.privEKey
      draws.pubEKey plain = .ok data := by
    simp only [encode, Draws.beNat_privEKey, key, sender]
    exact ⟨_, rfl⟩
  obtain ⟨data, encoded⟩ := encoded
  refine ⟨data, encoded, ?_⟩
  intro short
  exact decode_encode correct (by rw [Draws.beNat_privEKey, key, sender])
    (by rw [platform.cBytes_self own32, receiver]) encoded short

/-- Sealing for a key at full width does not fail. -/
theorem exists_sealText (draws : Draws platform) (priv header text : UString) :
    ∃ data, sealText draws priv header text (getPubOfPriv platform privKA) = .ok data := by
  obtain ⟨shared, sender, _⟩ := correct.agree_symm draws.ephemeral (beNat privKA)
    draws.ephemeral_valid full.not_identity
  simp only [sealText, encode, Draws.beNat_privEKey, cBytes_getPubOfPriv full, sender]
  exact ⟨_, rfl⟩

/-- The holder of the private key gets the text and the signature, which together are no
longer than what was sent. -/
theorem decode_sealText (own32 : privKA.length = 32)
    (sealing : sealText draws priv header text (getPubOfPriv platform privKA) = .ok data)
    (short : data.length < intLimit) :
    ∃ sign, signText platform priv draws.seed (header ++ text) = sign ∧
      decode platform data privKA = .ok (text ++ appendVarUstringB [] sign) ∧
      (text ++ appendVarUstringB [] sign).length < intLimit := by
  obtain ⟨shared, sender, receiver⟩ := correct.agree_symm draws.ephemeral (beNat privKA)
    draws.ephemeral_valid full.not_identity
  refine ⟨_, rfl, ?_⟩
  rw [← appendVarUstringB_eq]
  constructor
  · exact decode_encode correct
      (by rw [Draws.beNat_privEKey, cBytes_getPubOfPriv full, sender])
      (by rw [platform.cBytes_self own32, receiver]) sealing short
  · have length := encode_length sealing
    omega

end Recipient

/-- What is sent is only a little longer than the text. -/
theorem sealText_length_ge (sealing : sealText draws priv header text pubKA = .ok data) :
    data.length ≤ text.length + 215 := by
  have total := (encode_length sealing).2
  have sign := platform.derEncode_length (platform.sign (beNat priv) draws.seed (header ++ text))
  have count := appendVarIntB_length_le (UInt64.ofNat
    (signText platform priv draws.seed (header ++ text)).length)
  rw [appendVarUstringB_eq, List.length_append, appendVarUstringB, List.length_append] at total
  rw [signText] at total count
  omega

/-- The signature verifies under the public key of the signer. -/
theorem verifySignature_signText (correct : platform.Correct) (seed : Nat) (mess : UString)
    (valid : ¬(platform.publicPoint (beNat priv)).IsIdentity) :
    verifySignature platform (platform.publicPoint (beNat priv))
      (signText platform priv seed mess) mess = .ok true := by
  rw [verifySignature, signText, correct.ber_der]
  simp only [correct.verify_sign _ _ _ valid]

/-! ## Own addresses -/

namespace Addr

/-- The private keys have 32 bytes and the public keys, of 65 bytes, belong to them. -/
structure KeysMatch (platform : Platform) (own : Addr) : Prop where
  privSigning_length : own.privSigningKey.length = 32
  privEncryption_length : own.privEncryptionKey.length = 32
  pubSigning_eq : own.pubSigningKey = getPubOfPriv platform own.privSigningKey
  pubEncryption_eq : own.pubEncryptionKey = getPubOfPriv platform own.privEncryptionKey
  pubSigning_length : own.pubSigningKey.length = 65
  pubEncryption_length : own.pubEncryptionKey.length = 65

namespace KeysMatch

variable {own : Addr} (keysMatch : own.KeysMatch platform)
include keysMatch

theorem signing_fullWidth : (platform.publicPoint (beNat own.privSigningKey)).FullWidth :=
  fullWidth_of_length (keysMatch.pubSigning_eq ▸ keysMatch.pubSigning_length)

theorem encryption_fullWidth :
    (platform.publicPoint (beNat own.privEncryptionKey)).FullWidth :=
  fullWidth_of_length (keysMatch.pubEncryption_eq ▸ keysMatch.pubEncryption_length)

theorem pubSigning_encode : own.pubSigningKey =
    (platform.publicPoint (beNat own.privSigningKey)).encode.toUString :=
  keysMatch.pubSigning_eq.trans (getPubOfPriv_eq keysMatch.signing_fullWidth)

theorem pubEncryption_encode : own.pubEncryptionKey =
    (platform.publicPoint (beNat own.privEncryptionKey)).encode.toUString :=
  keysMatch.pubEncryption_eq.trans (getPubOfPriv_eq keysMatch.encryption_fullWidth)

end KeysMatch

/-- `setLastPubKeyRequest`. -/
def setLastPubKeyRequest (self : Addr) (time : Int64) : Addr :=
  { self with base := { self.base with lastPubKeyRequest := time } }

/-- The address was loaded by a `loadKeys` that returned true. -/
def Loaded (platform : Platform) (self : Addr) : Prop :=
  ∃ (before after : Addr) (pubE pubS privE privS : UString) (stream version : Int32)
    (request : Int64),
    before.loadKeys platform pubE pubS privE privS stream version = .ok (true, after) ∧
      self = after.setLastPubKeyRequest request

/-- What a loaded address knows about itself. -/
structure Consistent (platform : Platform) (own : Addr) : Prop where
  built : buildAddressFromKeys platform own.pubSigningKey own.pubEncryptionKey
    own.base.stream own.base.version = .ok own.base.address
  /-- Every `loadAddr` of the address string finds the same fields. -/
  loads : ∀ other : PubAddr, other.loadAddr platform own.base.address = .ok (true, {
    other with
    address := own.base.address
    version := own.base.version
    stream := own.base.stream
    ripe := own.base.ripe
    tagE := own.base.tagE
    tag := own.base.tag
    empty := true })
  ripe_length : own.base.ripe.length = 20
  tag_length : own.base.tag.length = 32
  tagE_length : own.base.tagE.length = 32
  nonceTrials_eq : own.base.nonceTrials = 1000
  extraBytes_eq : own.base.extraBytes = 1000
  privSigning_length : own.privSigningKey.length = 32
  privEncryption_length : own.privEncryptionKey.length = 32

/-- What `storeKeys` leaves behind when it returns true. -/
theorem storeKeys_eq_true {self after : Addr} {pubE pubS privE privS : UString}
    (stored : self.storeKeys pubE pubS privE privS = (true, after)) :
    PubAddr.storedKey pubE = some after.pubEncryptionKey ∧
      PubAddr.storedKey pubS = some after.pubSigningKey ∧
      after.privEncryptionKey = privE ∧ after.privSigningKey = privS ∧
      privE.length = 32 ∧ privS.length = 32 ∧
      after.base.nonceTrials = 1000 ∧ after.base.extraBytes = 1000 := by
  unfold storeKeys at stored
  cases encryption : PubAddr.storedKey pubE with
  | none => simp [encryption] at stored
  | some pubEncryptionKey =>
      cases signing : PubAddr.storedKey pubS with
      | none => simp [encryption, signing] at stored
      | some pubSigningKey =>
          simp only [encryption, signing] at stored
          split at stored
          next privELength =>
            split at stored
            next privSLength =>
              cases stored
              exact ⟨rfl, rfl, rfl, rfl, privELength, privSLength, rfl, rfl⟩
            next => cases stored
          next => cases stored

/-- The public part of a private key at full width is stored as it is. -/
theorem storedKey_getPubOfPriv {priv : UString}
    (full : (platform.publicPoint (beNat priv)).FullWidth) :
    PubAddr.storedKey (getPubOfPriv platform priv) = some (getPubOfPriv platform priv) := by
  rw [getPubOfPriv_eq full]
  simp [PubAddr.storedKey, Point.encode, Block.toUString]

/-- Private keys of 32 bytes with public keys at full width make an own address,
unless the digest of the public keys has more than 16 leading zeros. -/
theorem exists_loadKeys (self : Addr) {privE privS : UString} (stream version : Int32)
    (privE32 : privE.length = 32) (privS32 : privS.length = 32)
    (fullE : (platform.publicPoint (beNat privE)).FullWidth)
    (fullS : (platform.publicPoint (beNat privS)).FullWidth)
    (long : 4 ≤ ((keyDigest platform (getPubOfPriv platform privS)
      (getPubOfPriv platform privE)).toUString.dropWhile (· = 0)).length) :
    ∃ own, self.loadKeys platform (getPubOfPriv platform privE) (getPubOfPriv platform privS)
        privE privS stream version = .ok (true, own) ∧ own.KeysMatch platform ∧
      own.privEncryptionKey = privE ∧ own.privSigningKey = privS ∧
      own.base.version = version ∧ own.base.stream = stream := by
  have nonzero : (keyDigest platform (getPubOfPriv platform privS)
      (getPubOfPriv platform privE)).toUString.dropWhile (· = 0) ≠ [] := by
    intro zero
    rw [zero] at long
    exact absurd long (by decide)
  obtain ⟨address, built⟩ := exists_buildAddress stream version nonzero
  have short := ripe_length_le platform (getPubOfPriv platform privS) (getPubOfPriv platform privE)
  have stored : self.storeKeys (getPubOfPriv platform privE) (getPubOfPriv platform privS) privE
      privS = (true, {
        base := { self.base with extraBytes := 1000, nonceTrials := 1000 }
        pubSigningKey := getPubOfPriv platform privS
        privSigningKey := privS
        pubEncryptionKey := getPubOfPriv platform privE
        privEncryptionKey := privE }) := by
    simp [storeKeys, storedKey_getPubOfPriv fullE, storedKey_getPubOfPriv fullS, privE32, privS32]
  obtain ⟨base, loaded⟩ := @PubAddr.exists_loadBody platform {
    self.base with
    extraBytes := 1000, nonceTrials := 1000, version, stream, empty := false, address }
    address _ version stream short long
  obtain ⟨_, versionEq, streamEq, _⟩ := PubAddr.loadBody_eq_true short loaded
  have decoded := loadAddr_buildAddress built {
    self.base with
    extraBytes := 1000, nonceTrials := 1000, version, stream, empty := false, address }
  rw [loaded] at decoded
  refine ⟨{
    base
    pubSigningKey := getPubOfPriv platform privS
    privSigningKey := privS
    pubEncryptionKey := getPubOfPriv platform privE
    privEncryptionKey := privE }, ?_, ?_, rfl, rfl, versionEq, streamEq⟩
  · simp only [loadKeys, stored, if_true, built, decoded, bind, Except.bind]
    rfl
  · constructor
    · exact privS32
    · exact privE32
    · rfl
    · rfl
    · simp [getPubOfPriv_eq fullS]
    · simp [getPubOfPriv_eq fullE]

/-- `storeKeys` leaves the address string alone. -/
theorem storeKeys_address {self after : Addr} {pubE pubS privE privS : UString} {flag : Bool}
    (stored : self.storeKeys pubE pubS privE privS = (flag, after)) :
    after.base.address = self.base.address := by
  have kept : (self.storeKeys pubE pubS privE privS).2 = after := congrArg Prod.snd stored
  rw [← kept]
  unfold storeKeys
  cases PubAddr.storedKey pubE with
  | none => rfl
  | some pubEncryptionKey =>
      cases PubAddr.storedKey pubS with
      | none => rfl
      | some pubSigningKey =>
          simp only
          split
          · split <;> rfl
          · rfl

/-- A call of `loadKeys` either finds keys of the wrong form, or it builds the address
of the stored keys and loads it. -/
theorem loadKeys_cases {self after : Addr} {pubE pubS privE privS : UString}
    {stream version : Int32} {loaded : Bool}
    (load : self.loadKeys platform pubE pubS privE privS stream version = .ok (loaded, after)) :
    (loaded = false ∧ self.storeKeys pubE pubS privE privS = (false, after)) ∨
    ∃ (kept : Addr) (address : UString) (base : PubAddr),
      self.storeKeys pubE pubS privE privS = (true, kept) ∧
      buildAddressFromKeys platform kept.pubSigningKey kept.pubEncryptionKey stream version =
        .ok address ∧
      PubAddr.loadBody platform { kept.base with version, stream, empty := false, address }
        address (addressBody version stream ((keyDigest platform kept.pubSigningKey
          kept.pubEncryptionKey).toUString.dropWhile (· = 0))) = (loaded, base) ∧
      after = { kept with base } := by
  unfold loadKeys at load
  cases stored : self.storeKeys pubE pubS privE privS with
  | mk flag kept =>
      cases flag with
      | false =>
          rw [stored] at load
          cases load
          exact .inl ⟨rfl, rfl⟩
      | true =>
          simp only [stored, if_true] at load
          cases built : buildAddressFromKeys platform kept.pubSigningKey
              kept.pubEncryptionKey stream version with
          | error failure =>
              rw [built] at load
              cases load
          | ok address =>
              have decoded := loadAddr_buildAddress built
                { kept.base with version, stream, empty := false, address }
              simp only [built, decoded, bind, Except.bind, pure, Except.pure] at load
              cases load
              exact .inr ⟨kept, address, _, rfl, built, rfl, rfl⟩

theorem Loaded.consistent {own : Addr} (loaded : own.Loaded platform) :
    own.Consistent platform := by
  obtain ⟨before, after, pubE, pubS, privE, privS, stream, version, request, load, equal⟩ :=
    loaded
  rcases loadKeys_cases load with ⟨wrong, _⟩ | ⟨kept, address, base, stored, built, body, split⟩
  · cases wrong
  obtain ⟨_, _, privE_eq, privS_eq, privE32, privS32, nonce, extra⟩ := storeKeys_eq_true stored
  obtain ⟨_, versionEq, streamEq, addressEq⟩ :=
    PubAddr.loadBody_eq_true (ripe_length_le _ _ _) body
  obtain ⟨ripe20, tag32, tagE32⟩ := PubAddr.loadBody_tags body
  have decoded := loadAddr_buildAddress built
    { kept.base with version, stream, empty := false, address }
  rw [body] at decoded
  have fields := PubAddr.loadAddr_agree decoded
  have base_eq := congrArg Prod.snd (Except.ok.inj (decoded.symm.trans (fields _)))
  have nonceEq := congrArg PubAddr.nonceTrials base_eq
  have extraEq := congrArg PubAddr.extraBytes base_eq
  subst equal split
  exact {
    built := by simpa [setLastPubKeyRequest, versionEq, streamEq, addressEq] using built
    loads := by simpa [setLastPubKeyRequest, addressEq] using fields
    ripe_length := ripe20
    tag_length := tag32
    tagE_length := tagE32
    nonceTrials_eq := nonceEq.trans nonce
    extraBytes_eq := extraEq.trans extra
    privSigning_length := by simpa [setLastPubKeyRequest, privS_eq] using privS32
    privEncryption_length := by simpa [setLastPubKeyRequest, privE_eq] using privE32 }

/-- Everybody who loads the address string derives the same tags. -/
theorem Consistent.same_tags {own : Addr} (consistent : own.Consistent platform)
    {before receiver : PubAddr}
    (sameAddress : before.loadAddr platform own.base.address = .ok (true, receiver)) :
    own.base.tag = receiver.tag ∧ own.base.tagE = receiver.tagE := by
  have agree := (consistent.loads before).symm.trans sameAddress
  cases agree
  exact ⟨rfl, rfl⟩

/-! ## Sample addresses -/

/-- The sample digest of two public keys starts with their prefix. -/
theorem keyDigest_sample (privS privE : UString) :
    ∃ rest, rest.length = 19 ∧ (keyDigest Platform.sample (getPubOfPriv Platform.sample privS)
      (getPubOfPriv Platform.sample privE)).toUString = 4 :: rest := by
  have prefixed : withPrefix (getPubOfPriv Platform.sample privS) =
      4 :: (Platform.sample.publicPoint (beNat privS)).coordinates := by
    rw [getPubOfPriv_eq (Platform.sample_fullWidth _)]
    simp [withPrefix, Point.encode, Block.toUString]
  refine ⟨((Platform.sample.publicPoint (beNat privS)).coordinates).take 19, by simp, ?_⟩
  have long := Point.coordinates_length (Platform.sample.publicPoint (beNat privS))
  rw [keyDigest, prefixed]
  generalize withPrefix (getPubOfPriv Platform.sample privE) = other
  generalize (Platform.sample.publicPoint (beNat privS)).coordinates = first at long
  change ((((4 :: first ++ other) ++ List.replicate 64 0).take 64 ++
    List.replicate 20 0).take 20 : UString) = 4 :: first.take 19
  simp [List.take_append, List.take_take, long]

/-- A private key that starts with `n`. -/
def samplePriv (n : UInt8) : UString := n :: List.replicate 31 0

/-- The own address of a private key, as `load` builds it, of version 4 in stream 1. -/
def ofPriv (platform : Platform) (priv : UString) : Except Exn (Bool × Addr) :=
  loadKeys platform (new ⟨0, 0, 0, 0⟩) (getPubOfPriv platform priv)
    (getPubOfPriv platform priv) priv priv 1 4

def sample (n : UInt8) : Addr :=
  match ofPriv Platform.sample (samplePriv n) with
  | .ok (_, own) => own
  | .error _ => new ⟨0, 0, 0, 0⟩

theorem sample_spec (n : UInt8) :
    ofPriv Platform.sample (samplePriv n) = .ok (true, sample n) ∧
      (sample n).KeysMatch Platform.sample ∧ (sample n).privEncryptionKey = samplePriv n ∧
      (sample n).privSigningKey = samplePriv n ∧ (sample n).base.version = 4 ∧
      (sample n).base.stream = 1 := by
  obtain ⟨rest, length, digest⟩ := keyDigest_sample (samplePriv n) (samplePriv n)
  have long : 4 ≤ ((keyDigest Platform.sample (getPubOfPriv Platform.sample (samplePriv n))
      (getPubOfPriv Platform.sample (samplePriv n))).toUString.dropWhile (· = 0)).length := by
    simp [digest, length]
  obtain ⟨own, loaded, keys⟩ := exists_loadKeys (new ⟨0, 0, 0, 0⟩) 1 4 (by simp [samplePriv])
    (by simp [samplePriv]) (Platform.sample_fullWidth _) (Platform.sample_fullWidth _) long
  have same : sample n = own := by rw [sample, ofPriv, loaded]
  rw [same]
  exact ⟨loaded, keys⟩

theorem sample_loaded (n : UInt8) : (sample n).Loaded Platform.sample :=
  ⟨_, sample n, _, _, _, _, _, _, (sample n).base.lastPubKeyRequest, (sample_spec n).1, rfl⟩

/-- An address book entry for the `n`-th sample address. -/
def sampleEntry (n : UInt8) : PubAddr := {
  PubAddr.new ⟨0, 0, 0, 0⟩ with
  address := (sample n).base.address
  version := (sample n).base.version
  stream := (sample n).base.stream
  ripe := (sample n).base.ripe
  tagE := (sample n).base.tagE
  tag := (sample n).base.tag
  empty := true }

/-- An address book entry that has the keys of the `n`-th sample address. -/
def sampleContact (n : UInt8) : PubAddr := {
  sampleEntry n with
  pubSigningKey := (sample n).pubSigningKey
  pubEncryptionKey := (sample n).pubEncryptionKey
  empty := false }

theorem sampleEntry_loads (n : UInt8) :
    (PubAddr.new ⟨0, 0, 0, 0⟩).loadAddr Platform.sample (sample n).base.address =
      .ok (true, sampleEntry n) :=
  (sample_loaded n).consistent.loads _

end Addr

/-- The draws of a call at time 0 with empty memory, freed strings that are still there, and a
database that answers with nothing. -/
def Draws.sample : Draws Platform.sample where
  now := 0
  random := 0
  random_range := by decide
  ephemeral := 5
  ephemeral_lt := by decide +kernel
  ephemeral_valid := (Platform.sample_fullWidth 5).not_identity
  iv := Platform.fit 16 []
  seed := 0
  memory := {
    magic := 0
    command := Platform.fit 12 []
    length := 0
    checksum := Platform.fit 4 []
    messagePayload := []
    nonce := 0
    time := 0
    objectType := 0
    objectPayload := []
    version := 0
    stream := 0 }
  buffer := []
  storing := fun address => {
    signing := ⟨some fun i => address.pubSigningKey.getD i 0, none⟩
    encryption := ⟨some fun i => address.pubEncryptionKey.getD i 0, some []⟩
    strg := some fun _ => none }

end BitMRC

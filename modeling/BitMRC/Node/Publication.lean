import BitMRC.Address.Sealing
import BitMRC.Node.State

/-!
# Published keys

The pubkey object that `encodePubKey` makes of an own address reaches, after
`sendObj` and the proof of work, every address book entry for the same address
string, which then holds the keys.
-/

namespace BitMRC

open Foundation UString

variable {platform : Platform}

/-! ## Locally made objects on the wire -/

namespace Node

/-- The object that a peer decodes from a frame around a locally made object. -/
def received (packet : Packet) (obj : Object) (nonce : UInt64) : Object := {
  packet.copy with
  nonce
  time := obj.time
  objectType := obj.objectType
  objectPayload := obj.objectPayload
  version := obj.version
  stream := obj.stream }

/-- What a peer decodes from a locally made object, and the signed header it finds. -/
theorem decode_withNonce_queued {obj : Object} {nonce : UInt64} {packet : Packet}
    (payload : packet.messagePayload = (withNonce (queued obj) nonce).messagePayload)
    (short : packet.messagePayload.length < intLimit) :
    Object.ofPacket packet = .ok (received packet obj nonce) ∧
      Object.signedHeader.value packet.messagePayload 8 = .ok obj.header := by
  rw [payload] at short
  constructor
  · exact @Object.decodeData_encodePayload _ packet.copy payload
  · obtain ⟨stop, read⟩ := Object.signedHeader_encodePayload short
    rw [payload]
    exact Cursor.value_of_ok read

end Node

/-- The header of a fresh object, as every sender reads it back before signing. -/
theorem signedHeader_fresh (obj : Object) (bare : obj.objectPayload = []) :
    Object.signedHeader.value obj.encodePayload.messagePayload 8 = .ok obj.header := by
  have length := obj.header_length_le
  have short : obj.encodePayload.messagePayload.length < intLimit := by
    rw [Object.encodePayload_messagePayload, bare]
    simp only [List.append_nil, List.length_append, appendInt64_length, intLimit]
    omega
  obtain ⟨stop, read⟩ := Object.signedHeader_encodePayload short
  exact Cursor.value_of_ok read

/-! ## The text of a pubkey object -/

section Text

variable {own : Addr}

theorem pubkeyText_eq (keys : own.KeysMatch platform) :
    own.pubkeyText platform = appendInt32 [] 1 ++
      ((platform.publicPoint (beNat own.privSigningKey)).coordinates ++
      ((platform.publicPoint (beNat own.privEncryptionKey)).coordinates ++
      (appendVarIntB [] (varInt own.base.nonceTrials) ++
        appendVarIntB [] (varInt own.base.extraBytes)))) := by
  rw [Addr.pubkeyText, appendVarIntB_eq, appendVarIntB_eq (_ ++ _), keys.pubSigning_encode,
    keys.pubEncryption_encode, cBytes_encode, cBytes_encode]
  simp only [List.append_assoc]

theorem pubkeyText_length_le (keys : own.KeysMatch platform) :
    (own.pubkeyText platform).length ≤ 150 := by
  have nonce := appendVarIntB_length_le (varInt own.base.nonceTrials)
  have extra := appendVarIntB_length_le (varInt own.base.extraBytes)
  rw [pubkeyText_eq keys]
  simp only [List.length_append, Point.coordinates_length, appendInt32_length]
  omega

/-- `decodeFromObj` finds the fields that `encodePubKey` wrote. -/
theorem readPubkeyPlain_pubkeyText (keys : own.KeysMatch platform) {sign : UString}
    (short : (own.pubkeyText platform ++ appendVarUstringB [] sign).length < intLimit) :
    PubAddr.readPubkeyPlain.value (own.pubkeyText platform ++ appendVarUstringB [] sign) 0 =
      .ok {
        signingKey := own.pubSigningKey
        encryptionKey := own.pubEncryptionKey
        nonceTrials := own.base.nonceTrials
        extraBytes := own.base.extraBytes
        k := (own.pubkeyText platform).length
        sign } := by
  have signShort : sign.length < intLimit := by
    simp only [appendVarUstringB, List.length_append] at short
    omega
  have size := congrArg List.length (pubkeyText_eq keys)
  have here := Cursor.At.start (own.pubkeyText platform ++ appendVarUstringB [] sign)
  conv at here => arg 3; rw [pubkeyText_eq keys, appendVarUstringB]
  simp only [List.append_assoc] at here
  rw [keys.pubSigning_encode, keys.pubEncryption_encode]
  generalize own.pubkeyText platform ++ appendVarUstringB [] sign = data at *
  obtain ⟨readBitfield, here⟩ := (getInt32_decodes 1).at short here
  obtain ⟨readSigning, here⟩ := (getUstring_decodes_of_length 64 _ (by simp)).at short here
  obtain ⟨readEncryption, here⟩ :=
    (getUstring_decodes_of_length 64 _ (by simp)).at short here
  obtain ⟨readNonce, here⟩ := (getVarIntB_decodes (varInt own.base.nonceTrials)).at short here
  obtain ⟨readExtra, here⟩ := (getVarIntB_decodes (varInt own.base.extraBytes)).at short here
  obtain ⟨readLength, here⟩ := (getVarIntB_decodes (UInt64.ofNat sign.length)).at short here
  have readSign := (getUstring_decodes_of_length _ _ (length_toInt32 signShort)).at_end short
    here
  apply Cursor.value_of_ok
  rw [PubAddr.readPubkeyPlain, Cursor.bind_of_ok readBitfield, Cursor.bind_of_ok readSigning,
    Cursor.bind_of_ok readEncryption, Cursor.bind_of_ok readNonce, Cursor.bind_of_ok readExtra,
    Cursor.bind_of_ok (Cursor.position_apply _ _), Cursor.bind_of_ok readLength,
    Cursor.bind_of_ok readSign, Cursor.pure_apply, varInt_toInt32, varInt_toInt32, size]
  simp only [List.length_append, Nat.zero_add, Nat.add_assoc]
  rfl

end Text

/-! ## Publication -/

section Publication

variable {own : Addr} {draws : Draws platform}

/-- The object `encodePubKey` makes, before its payload is written. -/
def pubkeyObject (draws : Draws platform) (own : Addr) : Object := {
  draws.object with
  objectType := typePubkey
  time := draws.expiry
  stream := varInt own.base.stream
  version := 4 }

/-- The object `encodePubKey` returns. -/
def pubkeySent (draws : Draws platform) (own : Addr) (encrypted : UString) : PacketPubkey := {
  (pubkeyObject draws own).encodePayload with
  objectPayload := own.base.tag ++ encrypted
  tag := own.base.tag
  encrypted }

/-- `encodePubKey` seals the keys behind the header it has just encoded. -/
theorem encodePubKey_eq (draws : Draws platform) (own : Addr) :
    own.encodePubKey draws = (do
      let encrypted ← sealText draws own.privSigningKey
        ((pubkeyObject draws own).header ++ own.base.tag) (own.pubkeyText platform)
        (getPubOfPriv platform own.base.tagE)
      return (own.setLastPubKeyRequest draws.now, pubkeySent draws own encrypted)) := by
  have encoded : own.encodePubKey draws = (do
      let header ← Object.signedHeader.value
        (pubkeyObject draws own).encodePayload.messagePayload 8
      let encrypted ← sealText draws own.privSigningKey (header ++ own.base.tag)
        (own.pubkeyText platform) (getPubOfPriv platform own.base.tagE)
      let pubkey : PacketPubkey := {
        (pubkeyObject draws own).encodePayload with tag := own.base.tag, encrypted }
      return (own.setLastPubKeyRequest draws.now, pubkey.encodeObject)) := rfl
  rw [encoded, signedHeader_fresh (pubkeyObject draws own) rfl]
  rfl

/-- `encodePubKey` of an address whose tag key is a valid private key. -/
theorem exists_encodePubKey (draws : Draws platform) (correct : platform.Correct)
    (full : (platform.publicPoint (beNat own.base.tagE)).FullWidth) :
    ∃ encrypted, sealText draws own.privSigningKey
        ((pubkeyObject draws own).header ++ own.base.tag) (own.pubkeyText platform)
        (getPubOfPriv platform own.base.tagE) = .ok encrypted ∧
      own.encodePubKey draws =
        .ok (own.setLastPubKeyRequest draws.now, pubkeySent draws own encrypted) := by
  obtain ⟨encrypted, sealing⟩ := exists_sealText correct full draws own.privSigningKey
    ((pubkeyObject draws own).header ++ own.base.tag) (own.pubkeyText platform)
  refine ⟨encrypted, sealing, ?_⟩
  rw [encodePubKey_eq, sealing]
  rfl

/-- An address book entry with the tag of the signer accepts what the signer
sealed for it. -/
theorem decodeFromObj_sealed (correct : platform.Correct) (keys : own.KeysMatch platform)
    (full : (platform.publicPoint (beNat own.base.tagE)).FullWidth)
    (receiver : PubAddr) (pubkey : PacketPubkey) {header encrypted : UString}
    (tagE_length : own.base.tagE.length = 32) (tag_eq : receiver.tag = own.base.tag)
    (tagE_eq : receiver.tagE = own.base.tagE) (encrypted_eq : pubkey.encrypted = encrypted)
    (signed : Object.signedHeader.value pubkey.messagePayload 8 = .ok header)
    (sealing : sealText draws own.privSigningKey (header ++ own.base.tag)
      (own.pubkeyText platform) (getPubOfPriv platform own.base.tagE) = .ok encrypted)
    (short : encrypted.length < intLimit) :
    receiver.decodeFromObj platform pubkey = .ok (true, {
      receiver with
      pubSigningKey := own.pubSigningKey
      pubEncryptionKey := own.pubEncryptionKey
      nonceTrials := own.base.nonceTrials
      extraBytes := own.base.extraBytes
      empty := false }) := by
  obtain ⟨sign, signEq, opened, dataShort⟩ := decode_sealText correct full tagE_length sealing short
  have fields := readPubkeyPlain_pubkeyText keys dataShort
  have point := readPoint_encode platform
    (platform.publicPoint (beNat own.privSigningKey))
  rw [← keys.pubSigning_encode] at point
  have textShort : (own.pubkeyText platform).length < 2 ^ 31 := by
    simp only [List.length_append, intLimit] at dataShort
    omega
  have text : (getUstring (toInt (own.pubkeyText platform).length)).value
      (own.pubkeyText platform ++ appendVarUstringB [] sign) 0 =
      .ok (own.pubkeyText platform) := by
    rw [toInt_of_lt textShort]
    exact Cursor.value_of_ok ((getUstring_decodes _).from_start _ dataShort)
  have verified := verifySignature_signText correct draws.seed
    (header ++ own.base.tag ++ own.pubkeyText platform) keys.signing_fullWidth.not_identity
  rw [signEq, ← tag_eq] at verified
  have stored : receiver.loadKeys own.pubSigningKey own.pubEncryptionKey own.base.nonceTrials
      own.base.extraBytes = (true, {
        receiver with
        pubSigningKey := own.pubSigningKey
        pubEncryptionKey := own.pubEncryptionKey
        nonceTrials := own.base.nonceTrials
        extraBytes := own.base.extraBytes
        empty := false }) := by
    have signingKey := keys.pubSigning_encode
    have encryptionKey := keys.pubEncryption_encode
    rw [signingKey, encryptionKey]
    simp [PubAddr.loadKeys, PubAddr.storedKey, Point.encode, Block.toUString]
  rw [← tagE_eq] at opened
  simp only [PubAddr.decodeFromObj, encrypted_eq, opened, PubAddr.acceptPlain, fields, point,
    signed, text, verified, stored, bind, Except.bind]
  rfl

/-- End-to-end publication of keys: the object `encodePubKey` makes, queued by
`sendObj` and given any nonce, gives its keys to every address book entry that
loaded the same address string. -/
theorem pubkey_published (correct : platform.Correct) (loaded : own.Loaded platform)
    (keys : own.KeysMatch platform)
    (full : (platform.publicPoint (beNat own.base.tagE)).FullWidth)
    {before receiver : PubAddr}
    (sameAddress : before.loadAddr platform own.base.address = .ok (true, receiver))
    (nonce : UInt64) :
    ∃ pubkey, own.encodePubKey draws = .ok (own.setLastPubKeyRequest draws.now, pubkey) ∧
      ∀ packet : Packet, packet.messagePayload =
          (Node.withNonce (Node.queued pubkey.toObject) nonce).messagePayload →
        ∃ obj received after, Object.ofPacket packet = .ok obj ∧
          PacketPubkey.ofObject obj = .ok received ∧
          receiver.decodeFromObj platform received = .ok (true, after) ∧
          after.pubSigningKey = own.pubSigningKey ∧
          after.pubEncryptionKey = own.pubEncryptionKey ∧
          after.nonceTrials = own.base.nonceTrials ∧
          after.extraBytes = own.base.extraBytes ∧ after.waitingPubKey = false := by
  have consistent := loaded.consistent
  obtain ⟨encrypted, sealing, encoded⟩ := exists_encodePubKey draws correct full
  refine ⟨_, encoded, ?_⟩
  intro packet payload
  have size := sealText_length_ge sealing
  have textSize := pubkeyText_length_le keys
  have header := Object.header_length_le (pubkeyObject draws own)
  have length := congrArg List.length payload
  rw [Node.withNonce_queued_payload] at length
  have total : packet.messagePayload.length =
      8 + ((pubkeyObject draws own).header.length + (own.base.tag.length + encrypted.length)) := by
    have header : (pubkeySent draws own encrypted).header = (pubkeyObject draws own).header :=
      rfl
    have rest : (pubkeySent draws own encrypted).objectPayload = own.base.tag ++ encrypted := rfl
    simp only [length, header, rest, List.length_append, appendInt64_length]
  have tag32 := consistent.tag_length
  have short : packet.messagePayload.length < intLimit := lt_intLimit (by omega)
  obtain ⟨decoded, signed⟩ := Node.decode_withNonce_queued payload short
  have tagged := readTagged_append encrypted tag32
  obtain ⟨tagEq, tagEEq⟩ := consistent.same_tags sameAddress
  have opened := decodeFromObj_sealed correct keys full receiver {
      (Node.received packet (pubkeySent draws own encrypted).toObject nonce).copy with
      tag := own.base.tag
      encrypted }
    consistent.tagE_length tagEq.symm tagEEq.symm rfl signed sealing
    (by simp only [intLimit]; omega)
  exact ⟨_, _, _, decoded, PacketPubkey.ofObject_tagged rfl tagged, opened, rfl, rfl, rfl, rfl,
    rfl⟩

/-- Publication on the sample platform. -/
theorem pubkey_published_sample :
    ∃ pubkey, (Addr.sample 1).encodePubKey Draws.sample =
        .ok ((Addr.sample 1).setLastPubKeyRequest 0, pubkey) ∧
      ∀ packet : Packet, packet.messagePayload =
          (Node.withNonce (Node.queued pubkey.toObject) 7).messagePayload →
        ∃ obj received after, Object.ofPacket packet = .ok obj ∧
          PacketPubkey.ofObject obj = .ok received ∧
          (Addr.sampleEntry 1).decodeFromObj Platform.sample received = .ok (true, after) ∧
          after.pubSigningKey = (Addr.sample 1).pubSigningKey ∧
          after.pubEncryptionKey = (Addr.sample 1).pubEncryptionKey ∧
          after.nonceTrials = (Addr.sample 1).base.nonceTrials ∧
          after.extraBytes = (Addr.sample 1).base.extraBytes ∧ after.waitingPubKey = false :=
  pubkey_published Platform.sample_correct (Addr.sample_loaded 1) (Addr.sample_spec 1).2.1
    (Platform.sample_fullWidth _) (Addr.sampleEntry_loads 1) 7

end Publication

end BitMRC

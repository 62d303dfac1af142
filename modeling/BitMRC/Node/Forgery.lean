import BitMRC.Node.Changes
import BitMRC.Node.Delivery

/-!
# What the receivers of keys and broadcasts check

The key that decrypts a pubkey object or a broadcast is derived from a public
address, and the signature is checked with a key inside the decrypted text.  Both
together say who wrote the text, but nothing compares these keys with the address
that was asked for: whoever knows the address can put own keys in their place.
-/

namespace BitMRC

open Foundation UString

variable {platform : Platform}

/-! ## Keys -/

theorem readCipherText_length {data cipherText mac : UString} {start stop : Nat}
    (read : readCipherText data start = .ok ((cipherText, mac), stop)) :
    cipherText.length ≤ data.length := by
  unfold readCipherText at read
  obtain ⟨_, _, first, read⟩ := Cursor.bind_eq_ok.mp read
  cases first
  obtain ⟨_, _, second, read⟩ := Cursor.bind_eq_ok.mp read
  cases second
  obtain ⟨text, _, readText, read⟩ := Cursor.bind_eq_ok.mp read
  obtain ⟨_, _, _, read⟩ := Cursor.bind_eq_ok.mp read
  cases read
  obtain ⟨_, valueEq, _⟩ := getUstring_eq_ok.mp readText
  rw [valueEq, List.length_take, List.length_drop]
  omega

/-- A decrypted text is no longer than what it was decrypted from. -/
theorem decode_length {data privK recovered : UString}
    (opened : decode platform data privK = .ok recovered) : recovered.length ≤ data.length := by
  unfold decode at opened
  cases envelope : readEnvelope.value data 0 with
  | error failure => simp [envelope, bind, Except.bind] at opened
  | ok found =>
      rcases found with ⟨head, cipherText, mac⟩
      simp only [envelope, bind, Except.bind] at opened
      obtain ⟨stop, read⟩ := Cursor.value_eq_ok.mp envelope
      unfold readEnvelope at read
      obtain ⟨_, _, _, read⟩ := Cursor.bind_eq_ok.mp read
      obtain ⟨_, _, readTail, read⟩ := Cursor.bind_eq_ok.mp read
      cases read
      have cipher := readCipherText_length readTail
      split at opened
      next => cases opened
      next =>
        split at opened
        next => cases opened
        next =>
          split at opened
          next => cases opened
          next =>
            split at opened
            next => cases opened
            next text removed =>
              cases opened
              exact Nat.le_trans (platform.aesDecrypt_length _ _ _ _ removed) cipher

/-- A pubkey text that is read to its end holds two complete keys. -/
theorem readPubkeyPlain_keys {data : UString} {plain : PubAddr.PubkeyPlain}
    (short : data.length < intLimit)
    (read : PubAddr.readPubkeyPlain.value data 0 = .ok plain) :
    PubAddr.storedKey plain.signingKey = some plain.signingKey ∧
      PubAddr.storedKey plain.encryptionKey = some plain.encryptionKey := by
  have whole {key : UString} (length : key.length = 64) :
      PubAddr.storedKey (4 :: key) = some (4 :: key) := by
    simp [PubAddr.storedKey, length]
  obtain ⟨stop, read⟩ := Cursor.value_eq_ok.mp read
  unfold PubAddr.readPubkeyPlain at read
  obtain ⟨_, _, _, read⟩ := Cursor.bind_eq_ok.mp read
  obtain ⟨signing, afterSigning, readSigning, read⟩ := Cursor.bind_eq_ok.mp read
  obtain ⟨encryption, afterEncryption, readEncryption, read⟩ := Cursor.bind_eq_ok.mp read
  obtain ⟨_, _, readNonce, read⟩ := Cursor.bind_eq_ok.mp read
  obtain ⟨_, _, readExtra, read⟩ := Cursor.bind_eq_ok.mp read
  obtain ⟨_, _, readK, read⟩ := Cursor.bind_eq_ok.mp read
  cases readK
  obtain ⟨_, _, readLength, read⟩ := Cursor.bind_eq_ok.mp read
  obtain ⟨_, _, readSign, read⟩ := Cursor.bind_eq_ok.mp read
  cases read
  -- the next string is only read from a position inside the text
  have middle := (getUstring_eq_ok.mp readEncryption).1
  have last := (getUstring_eq_ok.mp readSign).1
  have nonce := getVarIntB_steady.forward short readNonce
  have extra := getVarIntB_steady.forward short readExtra
  have length := getVarIntB_steady.forward short readLength
  have signing64 := getUstring_length (n := 64) short (by decide) readSigning middle
  have encryption64 := getUstring_length (n := 64) short (by decide) readEncryption (by omega)
  exact ⟨whole signing64, whole encryption64⟩

/-- An entry that takes keys takes them from a text decrypted with its tag key and
signed with the signing key in it, over the header of the object, the tag of the
entry and the text in front of the signature. -/
theorem decodeFromObj_signed {self after : PubAddr} {pubkey : PacketPubkey}
    (result : self.decodeFromObj platform pubkey = .ok (true, after)) :
    ∃ (data : UString) (plain : PubAddr.PubkeyPlain) (point : Point) (header text : UString),
      decode platform pubkey.encrypted self.tagE = .ok data ∧
      PubAddr.readPubkeyPlain.value data 0 = .ok plain ∧
      (readPoint platform).value plain.signingKey 1 = .ok point ∧
      Object.signedHeader.value pubkey.messagePayload 8 = .ok header ∧
      (getUstring (toInt plain.k)).value data 0 = .ok text ∧
      verifySignature platform point plain.sign (header ++ self.tag ++ text) = .ok true ∧
      after = (self.loadKeys plain.signingKey plain.encryptionKey plain.nonceTrials
        plain.extraBytes).2 ∧
      (pubkey.encrypted.length < intLimit → after.pubSigningKey = plain.signingKey ∧
        after.pubEncryptionKey = plain.encryptionKey ∧ after.waitingPubKey = false) := by
  rcases PubAddr.decodeFromObj_cases result with ⟨refused, _⟩ |
    ⟨data, plain, point, header, text, _, opened, read, key, signed, covered, verified, taken⟩
  · cases refused
  refine ⟨data, plain, point, header, text, opened, read, key, signed, covered, verified, taken, ?_⟩
  intro short
  obtain ⟨signing, encryption⟩ :=
    readPubkeyPlain_keys (Nat.lt_of_le_of_lt (decode_length opened) short) read
  rw [taken]
  simp [PubAddr.loadKeys, signing, encryption, PubAddr.waitingPubKey]

/-! ## Broadcasts -/

/-- What storing a message does to the table. -/
theorem storeMessage_messages {self after : Node} {draws : Draws platform} {uninit : Uninit}
    {sender : Sender} {recipient message sign : UString}
    (result : self.storeMessage draws uninit sender recipient message sign = .ok after) :
    ∃ addr, buildAddressFromKeys platform sender.pubSigningKey sender.pubEncryptionKey
        sender.stream sender.version = .ok addr ∧
      after.messages =
        (self.messages.insert draws.buffer ⟨addr, recipient, message, sign⟩ sign).2 := by
  unfold Node.storeMessage at result
  obtain ⟨addr, built, result⟩ := bind_eq_ok.mp result
  obtain ⟨⟨_, entry⟩, _, result⟩ := bind_eq_ok.mp result
  refine ⟨addr, built, ?_⟩
  simp only at result
  split at result
  next =>
    cases result
    rfl
  next =>
    cases result
    rfl

/-- What a call of `decryptMsg(packet_broadcast)` does: nothing, or it stores the text
that a subscription decrypted, under the address of the keys that signed it. -/
theorem decryptBroadcast_signed {self after : Node} {draws : Draws platform} {uninit : Uninit}
    {msg : PacketBroadcast} {accepted : Bool}
    (result : self.decryptBroadcast draws uninit msg = .ok (accepted, after)) :
    (accepted = false ∧ after = self) ∨
    ∃ (subscription : PubAddr) (recovered : UString) (plain : BroadcastPlain) (addr : UString),
      subscription ∈ self.subscriptions ∧
      decode platform msg.encrypted subscription.tagE = .ok recovered ∧
      (msg.version = 4 ∨ msg.version = 5 ∧ msg.tag = subscription.tag) ∧
      readBroadcastPlain.value recovered 0 = .ok plain ∧
      Node.checkSigned platform msg.messagePayload (Node.signedTag msg) recovered
        plain.sender.pubSigningKey plain.sign plain.k = .ok true ∧
      buildAddressFromKeys platform plain.sender.pubSigningKey plain.sender.pubEncryptionKey
        plain.sender.stream plain.sender.version = .ok addr ∧
      after.messages = (self.messages.insert draws.buffer
        ⟨addr, Node.broadcastRecipient, plain.message, plain.sign⟩ plain.sign).2 := by
  unfold Node.decryptBroadcast at result
  split at result
  next =>
    cases result
    exact .inl ⟨rfl, rfl⟩
  next subscription recovered found =>
    obtain ⟨member, opened, version⟩ := Node.decryptBroadcastWith_decode found
    rcases tryCatchAll_eq_ok result with accept | refused
    · unfold Node.acceptBroadcast at accept
      obtain ⟨plain, read, accept⟩ := bind_eq_ok.mp accept
      obtain ⟨verified, check, accept⟩ := bind_eq_ok.mp accept
      split at accept
      next signed =>
        subst signed
        obtain ⟨final, store, accept⟩ := bind_eq_ok.mp accept
        cases accept
        obtain ⟨addr, built, messages⟩ := storeMessage_messages store
        exact .inr ⟨subscription, recovered, plain, addr, member, opened, version, read, check,
          built, messages⟩
      next =>
        cases accept
        exact .inl ⟨rfl, rfl⟩
    · cases refused
      exact .inl ⟨rfl, rfl⟩

/-! ## Own keys under a foreign address -/

namespace Addr

/-- An address with the keys of the second sample address and the tags of the first,
which everybody can compute from its address string. -/
def forged : Addr := {
  Addr.sample 2 with
  base := {
    (Addr.sample 2).base with
    tag := (Addr.sample 1).base.tag
    tagE := (Addr.sample 1).base.tagE } }

theorem forged_keysMatch : forged.KeysMatch Platform.sample := by
  have keys := (sample_spec 2).2.1
  exact ⟨keys.privSigning_length, keys.privEncryption_length, keys.pubSigning_eq,
    keys.pubEncryption_eq, keys.pubSigning_length, keys.pubEncryption_length⟩

/-- These keys do not belong to the first sample address. -/
theorem digest_forged : (keyDigest Platform.sample forged.pubSigningKey
    forged.pubEncryptionKey).toUString ≠ (sampleEntry 1).ripe := by
  decide +kernel

theorem ripe_forged : (sampleEntry 2).ripe ≠ (sampleEntry 1).ripe := by
  decide +kernel

end Addr

/-- Matching keys with the tags of the first sample address are taken by its entry. -/
theorem pubkey_taken_sample {own : Addr} (keys : own.KeysMatch Platform.sample)
    (tag : own.base.tag = (Addr.sampleEntry 1).tag)
    (tagE : own.base.tagE = (Addr.sampleEntry 1).tagE) :
    ∃ pubkey, pubkey.encrypted.length < intLimit ∧
      (Addr.sampleEntry 1).decodeFromObj Platform.sample pubkey = .ok (true, {
        Addr.sampleEntry 1 with
        pubSigningKey := own.pubSigningKey
        pubEncryptionKey := own.pubEncryptionKey
        nonceTrials := own.base.nonceTrials
        extraBytes := own.base.extraBytes
        empty := false }) := by
  obtain ⟨encrypted, sealing, _⟩ := @exists_encodePubKey Platform.sample own Draws.sample
    Platform.sample_correct (Platform.sample_fullWidth _)
  have size := sealText_length_ge sealing
  have textSize := pubkeyText_length_le keys
  have short : encrypted.length < intLimit := lt_intLimit (by omega)
  have tagE32 : own.base.tagE.length = 32 := by
    rw [tagE]
    exact (Addr.sample_loaded 1).consistent.tagE_length
  have signed := signedHeader_fresh (pubkeyObject Draws.sample own) rfl
  exact ⟨pubkeySent Draws.sample own encrypted, short, decodeFromObj_sealed
    Platform.sample_correct keys (Platform.sample_fullWidth _) (Addr.sampleEntry 1) _ tagE32
    tag.symm tagE.symm rfl signed sealing short⟩

/-- Matching keys with these tags reach the subscriber under the address of the keys. -/
theorem broadcast_taken_sample {own : Addr} (keys : own.KeysMatch Platform.sample)
    (tag : own.base.tag = (Addr.sampleEntry 1).tag)
    (tagE : own.base.tagE = (Addr.sampleEntry 1).tagE) {address : UString}
    (built : buildAddressFromKeys Platform.sample own.pubSigningKey own.pubEncryptionKey
      own.base.stream own.base.version = .ok address) :
    ∃ msg after stored, Node.sampleSubscriber.decryptBroadcast Draws.sample ⟨0, 0, 0, 0⟩ msg =
        .ok (true, after) ∧ after.messages.Stored stored ∧ stored.«from» = address := by
  obtain ⟨encrypted, sealing, _⟩ := @exists_broadcastObject Platform.sample own
    Draws.sample Platform.sample_correct [104, 105] (Platform.sample_fullWidth _)
  have consistent := (Addr.sample_loaded 1).consistent
  have tag32 : own.base.tag.length = 32 := by
    rw [tag]
    exact consistent.tag_length
  have tagE32 : own.base.tagE.length = 32 := by
    rw [tagE]
    exact consistent.tagE_length
  let packet : Packet := {
    Draws.sample.memory.toPacket with
    messagePayload := (Node.withNonce (Node.queued (broadcastSent Draws.sample own encrypted))
      7).messagePayload }
  have payload : packet.messagePayload = (Node.withNonce (Node.queued (broadcastSent
      Draws.sample own encrypted)) 7).messagePayload := rfl
  have size := broadcastSent_length_le 7 keys sealing
  rw [tag32] at size
  have limit : packet.messagePayload.length ≤ 0x40000 :=
    Nat.le_trans size (Nat.le_of_ble_eq_true rfl)
  obtain ⟨_, msg, after, _, _, stores, stored, member, _, sender⟩ := decryptBroadcast_sealed
    Platform.sample_correct keys (Platform.sample_fullWidth _) tag32 tagE32 built sealing tag
    tagE (show Node.sampleSubscriber.subscriptions = [] ++ Addr.sampleEntry 1 :: [] from rfl)
    (by simp) payload limit Draws.sample ⟨0, 0, 0, 0⟩
  exact ⟨msg, after, stored, stores, member, sender⟩

/-- The entry of the first sample address takes the keys that were signed for it. -/
theorem decodeFromObj_signed_sample :
    ∃ pubkey after data plain,
      (Addr.sampleEntry 1).decodeFromObj Platform.sample pubkey = .ok (true, after) ∧
      decode Platform.sample pubkey.encrypted (Addr.sampleEntry 1).tagE = .ok data ∧
      PubAddr.readPubkeyPlain.value data 0 = .ok plain ∧
      after.pubSigningKey = plain.signingKey := by
  obtain ⟨pubkey, short, taken⟩ := pubkey_taken_sample (Addr.sample_spec 1).2.1 rfl rfl
  obtain ⟨data, plain, _, _, _, opened, read, _, _, _, _, _, keys⟩ := decodeFromObj_signed taken
  exact ⟨pubkey, _, data, plain, taken, opened, read, (keys short).1⟩

/-- The subscriber stores a broadcast of the first sample address. -/
theorem decryptBroadcast_signed_sample :
    ∃ msg after subscription recovered,
      Node.sampleSubscriber.decryptBroadcast Draws.sample ⟨0, 0, 0, 0⟩ msg = .ok (true, after) ∧
      subscription ∈ Node.sampleSubscriber.subscriptions ∧
      decode Platform.sample msg.encrypted subscription.tagE = .ok recovered := by
  obtain ⟨msg, after, _, stores, _⟩ := broadcast_taken_sample (Addr.sample_spec 1).2.1 rfl rfl
    (Addr.sample_loaded 1).consistent.built
  rcases decryptBroadcast_signed stores with ⟨refused, _⟩ |
    ⟨subscription, recovered, _, _, member, opened, _⟩
  · cases refused
  · exact ⟨msg, after, subscription, recovered, stores, member, opened⟩

/-- A pubkey object that replaces the keys of an address by others. -/
theorem pubkey_forged_sample :
    Platform.sample.Correct ∧
    (PubAddr.new ⟨0, 0, 0, 0⟩).loadAddr Platform.sample (Addr.sample 1).base.address =
      .ok (true, Addr.sampleEntry 1) ∧
    ∃ pubkey after,
      (Addr.sampleEntry 1).decodeFromObj Platform.sample pubkey = .ok (true, after) ∧
      (keyDigest Platform.sample after.pubSigningKey after.pubEncryptionKey).toUString ≠
        after.ripe := by
  obtain ⟨pubkey, _, taken⟩ := pubkey_taken_sample Addr.forged_keysMatch rfl rfl
  exact ⟨Platform.sample_correct, Addr.sampleEntry_loads 1, pubkey, _, taken,
    Addr.digest_forged⟩

/-- A broadcast that a subscriber of one address stores under another. -/
theorem broadcast_forged_sample :
    Platform.sample.Correct ∧
    ∃ msg after stored, Node.sampleSubscriber.decryptBroadcast Draws.sample ⟨0, 0, 0, 0⟩ msg =
        .ok (true, after) ∧ after.messages.Stored stored ∧
      ∀ subscription ∈ Node.sampleSubscriber.subscriptions, ∀ sender : PubAddr,
        (PubAddr.new ⟨0, 0, 0, 0⟩).loadAddr Platform.sample stored.«from» = .ok (true, sender) →
          sender.ripe ≠ subscription.ripe := by
  refine ⟨Platform.sample_correct, ?_⟩
  obtain ⟨msg, after, stored, stores, member, address⟩ := broadcast_taken_sample
    Addr.forged_keysMatch rfl rfl (Addr.sample_loaded 2).consistent.built
  refine ⟨msg, after, stored, stores, member, ?_⟩
  intro subscription subscribed sender loads
  rw [address] at loads
  have same := (Addr.sampleEntry_loads 2).symm.trans loads
  cases same
  rw [List.mem_singleton.mp subscribed]
  exact Addr.ripe_forged

end BitMRC

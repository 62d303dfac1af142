import BitMRC.Node.Messages
import BitMRC.Node.Publication

/-!
# Delivery of messages and broadcasts

Both sides of a message are compared field by field: what the sender writes is
what the receiver reads, and the signature covers the same bytes.  A broadcast
arrives; a message fails at its acknowledgement.
-/

namespace BitMRC

open Foundation UString

variable {platform : Platform}

/-! ## The common fields -/

section Fields

variable {own : Addr}

/-- What a receiver reads of a sender. -/
def senderOf (platform : Platform) (own : Addr) : Sender where
  version := own.base.version
  stream := own.base.stream
  pubSigningKey := (platform.publicPoint (beNat own.privSigningKey)).coordinates
  pubEncryptionKey := (platform.publicPoint (beNat own.privEncryptionKey)).coordinates
  nonce := if 3 ≤ own.base.version then own.base.nonceTrials else 1000
  extra := if 3 ≤ own.base.version then own.base.extraBytes else 1000

/-- The last fields of `senderText`, which only later versions have. -/
def senderTail (own : Addr) : UString :=
  if 3 ≤ own.base.version then
    appendVarIntB [] (varInt own.base.nonceTrials) ++
      appendVarIntB [] (varInt own.base.extraBytes)
  else
    []

theorem senderText_eq (keys : own.KeysMatch platform) :
    senderText platform own = appendVarIntB [] (varInt own.base.version) ++
      (appendVarIntB [] (varInt own.base.stream) ++ (appendInt32 [] 1 ++
      ((platform.publicPoint (beNat own.privSigningKey)).coordinates ++
      ((platform.publicPoint (beNat own.privEncryptionKey)).coordinates ++
        senderTail own)))) := by
  unfold senderText senderTail
  simp only [keys.pubSigning_encode, keys.pubEncryption_encode, cBytes_encode]
  split
  · rw [appendVarIntB_eq, appendVarIntB_eq (_ ++ _), appendInt32_eq,
      appendVarIntB_eq (appendVarIntB _ _)]
    simp only [List.append_assoc]
  · rw [appendInt32_eq, appendVarIntB_eq (appendVarIntB _ _)]
    simp only [List.append_assoc, List.append_nil]

theorem readSender_decodes (keys : own.KeysMatch platform) :
    Cursor.Decodes intLimit readSender (senderText platform own) (senderOf platform own) := by
  rw [senderText_eq keys]
  apply (getVarIntB_decodes (varInt own.base.version)).bind
  apply (getVarIntB_decodes (varInt own.base.stream)).bind
  apply (getInt32_decodes 1).bind
  apply (getUstring_decodes_of_length 64 _ (by simp)).bind
  apply (getUstring_decodes_of_length 64 _ (by simp)).bind
  simp only [varInt_toInt32]
  unfold senderTail senderOf
  by_cases late : 3 ≤ own.base.version
  · simp only [if_pos late]
    apply (getVarIntB_decodes (varInt own.base.nonceTrials)).bind
    have word : Cursor.Decodes intLimit getVarIntB (appendVarIntB [] (varInt own.base.extraBytes))
        (varInt own.base.extraBytes).toInt64 := getVarIntB_decodes _
    have last := word.map fun extra =>
      (⟨own.base.version, own.base.stream,
        (platform.publicPoint (beNat own.privSigningKey)).coordinates,
        (platform.publicPoint (beNat own.privEncryptionKey)).coordinates,
        (varInt own.base.nonceTrials).toInt64.toInt32, extra.toInt32⟩ : Sender)
    simpa only [varInt_toInt32] using last
  · simp only [if_neg late]
    exact Cursor.Decodes.pure intLimit _

/-- The fields of the sender take at most 168 bytes. -/
theorem senderText_length_le (keys : own.KeysMatch platform) :
    (senderText platform own).length ≤ 168 := by
  have version := appendVarIntB_length_le (varInt own.base.version)
  have stream := appendVarIntB_length_le (varInt own.base.stream)
  have nonce := appendVarIntB_length_le (varInt own.base.nonceTrials)
  have extra := appendVarIntB_length_le (varInt own.base.extraBytes)
  have tail : (senderTail own).length ≤ 18 := by
    unfold senderTail
    split
    · rw [List.length_append]
      omega
    · exact Nat.zero_le _
  rw [senderText_eq keys]
  simp only [List.length_append, Point.coordinates_length, appendInt32_length]
  omega

theorem broadcastText_eq (platform : Platform) (own : Addr) (message : UString) :
    broadcastText platform own message =
      senderText platform own ++ (appendVarIntB [] 1 ++ appendVarUstringB [] message) := by
  rw [broadcastText, appendVarIntB_eq, appendVarIntB_eq (senderText platform own),
    appendVarUstringB]
  simp only [List.append_assoc]

theorem messageText_eq (platform : Platform) (own : Addr) (ripe message : UString) :
    messageText platform own ripe message =
      senderText platform own ++ (ripe ++ (appendVarIntB [] 1 ++
        (appendVarUstringB [] message ++ appendVarUstringB [] [1]))) := by
  rw [messageText, appendInt8_eq, appendVarIntB_eq, appendVarIntB_eq (_ ++ _),
    appendVarIntB_eq (_ ++ appendVarIntB [] 1), appendVarUstringB, appendVarUstringB]
  simp only [List.append_assoc]
  rfl

variable {message sign : UString}

/-- The receiver of a broadcast finds the fields that `sendBroadcast` wrote. -/
theorem readBroadcastPlain_text (keys : own.KeysMatch platform)
    (short : (broadcastText platform own message ++ appendVarUstringB [] sign).length <
      intLimit) :
    readBroadcastPlain.value (broadcastText platform own message ++ appendVarUstringB [] sign)
        0 = .ok {
      sender := senderOf platform own
      message
      k := (broadcastText platform own message).length
      sign } := by
  have size := congrArg List.length (broadcastText_eq platform own message)
  have here := Cursor.At.start (broadcastText platform own message ++ appendVarUstringB [] sign)
  conv at here => arg 3; rw [broadcastText_eq platform own message]
  simp only [List.append_assoc] at here
  generalize broadcastText platform own message ++ appendVarUstringB [] sign = data at *
  obtain ⟨readFields, here⟩ := (readSender_decodes keys).at short here
  obtain ⟨readEncoding, here⟩ := (getVarIntB_decodes 1).at short here
  obtain ⟨readMessage, here⟩ := (getVarUstringB_decodes message).at short here
  have readSign := (getVarUstringB_decodes sign).at_end short here
  apply Cursor.value_of_ok
  rw [readBroadcastPlain, Cursor.bind_of_ok readFields, Cursor.bind_of_ok readEncoding,
    Cursor.bind_of_ok readMessage, Cursor.bind_of_ok (Cursor.position_apply _ _),
    Cursor.bind_of_ok readSign, Cursor.pure_apply, size]
  simp only [List.length_append, Nat.zero_add, Nat.add_assoc]
  rfl

/-- The receiver of a message finds the fields that `sendMessage` wrote. -/
theorem readMsgPlain_text (keys : own.KeysMatch platform) {ripe : UString}
    (twenty : ripe.length = 20)
    (short : (messageText platform own ripe message ++ appendVarUstringB [] sign).length <
      intLimit) :
    readMsgPlain.value (messageText platform own ripe message ++ appendVarUstringB [] sign) 0 =
      .ok {
        sender := senderOf platform own
        destRipe := ripe
        message
        ackData := [1]
        k := (messageText platform own ripe message).length
        sign } := by
  have size := congrArg List.length
    (messageText_eq platform own ripe message)
  have here := Cursor.At.start
    (messageText platform own ripe message ++ appendVarUstringB [] sign)
  conv at here => arg 3; rw [messageText_eq platform own ripe message]
  simp only [List.append_assoc] at here
  generalize messageText platform own ripe message ++ appendVarUstringB [] sign = data at *
  obtain ⟨readFields, here⟩ := (readSender_decodes keys).at short here
  obtain ⟨readRipe, here⟩ := (getUstring_decodes_of_length 20 ripe
    (by rw [twenty]; rfl)).at short here
  obtain ⟨readEncoding, here⟩ := (getVarIntB_decodes 1).at short here
  obtain ⟨readMessage, here⟩ := (getVarUstringB_decodes message).at short here
  obtain ⟨readAck, here⟩ := (getVarUstringB_decodes [1]).at short here
  have readSign := (getVarUstringB_decodes sign).at_end short here
  apply Cursor.value_of_ok
  rw [readMsgPlain, Cursor.bind_of_ok readFields, Cursor.bind_of_ok readRipe,
    Cursor.bind_of_ok readEncoding, Cursor.bind_of_ok readMessage, Cursor.bind_of_ok readAck,
    Cursor.bind_of_ok (Cursor.position_apply _ _), Cursor.bind_of_ok readSign,
    Cursor.pure_apply, size]
  simp only [List.length_append, Nat.zero_add, Nat.add_assoc]
  rfl

/-- A text signed with the key it names passes the signature check. -/
theorem checkSigned_sealed (correct : platform.Correct) (keys : own.KeysMatch platform)
    {payload header tag text sign : UString} {seed : Nat}
    (signed : Object.signedHeader.value payload 8 = .ok header)
    (signEq : signText platform own.privSigningKey seed (header ++ tag ++ text) = sign)
    (short : (text ++ appendVarUstringB [] sign).length < intLimit) :
    Node.checkSigned platform payload tag (text ++ appendVarUstringB [] sign)
      (platform.publicPoint (beNat own.privSigningKey)).coordinates sign text.length =
      .ok true := by
  have point := (readPoint_decodes platform
    (platform.publicPoint (beNat own.privSigningKey))).from_start [] (by simp [intLimit])
  rw [List.append_nil] at point
  have textShort : text.length < 2 ^ 31 := by
    simp only [List.length_append, intLimit] at short
    omega
  have signedText : (getUstring (toInt text.length)).value (text ++ appendVarUstringB [] sign)
      0 = .ok text := by
    rw [toInt_of_lt textShort]
    exact Cursor.value_of_ok ((getUstring_decodes _).from_start _ short)
  have verified := verifySignature_signText correct seed (header ++ tag ++ text)
    keys.signing_fullWidth.not_identity
  rw [signEq] at verified
  simp only [Node.checkSigned, Cursor.value_of_ok point, signed, signedText, bind, Except.bind,
    verified]

end Fields

/-! ## Storing -/

/-- A digest of this form makes `loadAddr` return on the address built from it. -/
theorem exists_storeMessage (draws : Draws platform) (uninit : Uninit) (node : Node)
    {sender : Sender} (recipient message sign : UString) {address : UString}
    (built : buildAddressFromKeys platform sender.pubSigningKey sender.pubEncryptionKey
      sender.stream sender.version = .ok address) :
    ∃ after, node.storeMessage draws uninit sender recipient message sign = .ok after ∧
      after.messages = (node.messages.insert draws.buffer
        ⟨address, recipient, message, sign⟩ sign).2 := by
  have loads := loadAddr_buildAddress built (PubAddr.new uninit)
  simp only [Node.storeMessage, built, loads, bind, Except.bind, pure, Except.pure]
  split
  · exact ⟨_, rfl, rfl⟩
  · exact ⟨_, rfl, rfl⟩

/-- A broadcast whose signature holds is stored. -/
theorem exists_acceptBroadcast_of_check (node : Node) (draws : Draws platform) (uninit : Uninit)
    {msg : PacketBroadcast} {recovered address : UString} {plain : BroadcastPlain}
    (read : readBroadcastPlain.value recovered 0 = .ok plain)
    (check : Node.checkSigned platform msg.messagePayload (Node.signedTag msg) recovered
      plain.sender.pubSigningKey plain.sign plain.k = .ok true)
    (built : buildAddressFromKeys platform plain.sender.pubSigningKey
      plain.sender.pubEncryptionKey plain.sender.stream plain.sender.version = .ok address) :
    ∃ after, node.acceptBroadcast draws uninit msg recovered = .ok (true, after) ∧
      after.messages = (node.messages.insert draws.buffer
        ⟨address, Node.broadcastRecipient, plain.message, plain.sign⟩ plain.sign).2 := by
  obtain ⟨after, stored, messages⟩ := exists_storeMessage draws uninit node
    Node.broadcastRecipient plain.message plain.sign built
  refine ⟨after, ?_, messages⟩
  simp only [Node.acceptBroadcast, read, bind, Except.bind, check, if_true, stored, pure,
    Except.pure]

/-! ## Messages -/

section Message

variable {fromAddr recipient : Addr} {draws : Draws platform}

/-- The object `sendMessage` starts with. -/
def msgBase (draws : Draws platform) (fromAddr : Addr) : Object := {
  draws.object with
  time := draws.expiry
  objectType := typeMsg
  stream := varInt fromAddr.base.stream
  version := 1 }

/-- The object `sendMessage` queues. -/
def msgSent (draws : Draws platform) (fromAddr : Addr) (encrypted : UString) : Object := {
  (msgBase draws fromAddr).encodePayload with objectPayload := encrypted }

theorem exists_msgObject (draws : Draws platform) (fromAddr : Addr) (correct : platform.Correct)
    (message : UString) (recipientKeys : recipient.KeysMatch platform) {toAddr : PubAddr}
    (key : toAddr.pubEncryptionKey = recipient.pubEncryptionKey) :
    ∃ encrypted, sealText draws fromAddr.privSigningKey (msgBase draws fromAddr).header
        (messageText platform fromAddr toAddr.ripe message) recipient.pubEncryptionKey =
          .ok encrypted ∧
      msgObject draws message toAddr fromAddr = .ok (msgSent draws fromAddr encrypted) := by
  obtain ⟨encrypted, sealing⟩ := exists_sealText correct recipientKeys.encryption_fullWidth draws
    fromAddr.privSigningKey (msgBase draws fromAddr).header
    (messageText platform fromAddr toAddr.ripe message)
  rw [← recipientKeys.pubEncryption_eq] at sealing
  refine ⟨encrypted, sealing, ?_⟩
  have header := signedHeader_fresh (msgBase draws fromAddr) rfl
  have encoded : msgObject draws message toAddr fromAddr = (do
      let header ← Object.signedHeader.value
        (msgBase draws fromAddr).encodePayload.messagePayload 8
      let objectPayload ← sealText draws fromAddr.privSigningKey header
        (messageText platform fromAddr toAddr.ripe message) toAddr.pubEncryptionKey
      return { (msgBase draws fromAddr).encodePayload with objectPayload }) := rfl
  rw [encoded, header, key]
  simp only [bind, Except.bind, sealing]
  rfl

/-- When every key either opens a text or throws, some own address opens it. -/
theorem exists_decryptWith {data text : UString} {own : List Addr}
    (opens : ∃ address ∈ own, decode platform data address.privEncryptionKey = .ok text)
    (others : ∀ address ∈ own, decode platform data address.privEncryptionKey = .ok text ∨
      ∃ failure, decode platform data address.privEncryptionKey = .error failure) :
    ∃ address ∈ own, Node.decryptWith platform data own = some (address, text) := by
  induction own with
  | nil => simp at opens
  | cons address rest ih =>
      rcases others address List.mem_cons_self with opened | ⟨failure, closed⟩
      · exact ⟨address, List.mem_cons_self, by simp [Node.decryptWith, opened]⟩
      · obtain ⟨holder, member, opened⟩ := opens
        have inRest : holder ∈ rest := by
          rcases List.mem_cons.mp member with equal | inRest
          · rw [equal, closed] at opened
            cases opened
          · exact inRest
        obtain ⟨found, foundIn, result⟩ := ih ⟨holder, inRest, opened⟩
          fun other otherIn => others other (List.mem_cons_of_mem _ otherIn)
        exact ⟨found, List.mem_cons_of_mem _ foundIn, by simp [Node.decryptWith, closed, result]⟩

/-- One byte is too short for a frame, so that building the acknowledgement throws. -/
theorem propagateAck_one (node : Node) (draws : Draws platform) :
    node.propagateAck draws [1] = .error (.runtimeError "ustring out of range") := by
  have short : Packet.ofUString [1] = .error (.runtimeError "ustring out of range") := rfl
  rw [Node.propagateAck, short]
  rfl

/-- `sendMessage` and `decryptMsg` agree on every field up to the acknowledgement,
which `decryptMsg` takes for a frame: whoever opens the text does not accept it. -/
theorem decryptMsg_msgSent (correct : platform.Correct) (fromKeys : fromAddr.KeysMatch platform)
    (recipientKeys : recipient.KeysMatch platform) {message ripe encrypted : UString}
    (twenty : ripe.length = 20) (sealing : sealText draws fromAddr.privSigningKey
      (msgBase draws fromAddr).header (messageText platform fromAddr ripe message)
      recipient.pubEncryptionKey = .ok encrypted)
    {node : Node} (held : recipient ∈ node.privAddresses) {nonce : UInt64} {packet : Packet}
    (payload : packet.messagePayload =
      (Node.withNonce (Node.queued (msgSent draws fromAddr encrypted)) nonce).messagePayload)
    (limit : packet.messagePayload.length ≤ 0x40000)
    (wrongKeys : ∀ other ∈ node.privAddresses,
      other.privEncryptionKey ≠ recipient.privEncryptionKey →
        ∃ failure, decode platform encrypted other.privEncryptionKey = .error failure)
    (receiverDraws : Draws platform) (uninit : Uninit) :
    ∃ wire, Object.ofPacket packet = .ok wire ∧
      node.decryptMsg receiverDraws uninit (PacketMsg.ofObject wire) = .ok (false, node) := by
  have short := lt_intLimit limit
  have length := congrArg List.length payload
  rw [Node.withNonce_queued_payload] at length
  have rest : (msgSent draws fromAddr encrypted).objectPayload = encrypted := rfl
  simp only [rest, List.length_append, appendInt64_length] at length
  obtain ⟨decoded, signed⟩ := Node.decode_withNonce_queued payload short
  refine ⟨_, decoded, ?_⟩
  rw [recipientKeys.pubEncryption_eq] at sealing
  obtain ⟨sign, signEq, opened, dataShort⟩ := decode_sealText correct
    recipientKeys.encryption_fullWidth recipientKeys.privEncryption_length sealing (by omega)
  have fields := readMsgPlain_text fromKeys twenty dataShort
  have verified := @checkSigned_sealed _ _ correct fromKeys _ _ [] _ _ _ signed
    (by rw [List.append_nil]; exact signEq) dataShort
  generalize msgEq : PacketMsg.ofObject
    (Node.received packet (msgSent draws fromAddr encrypted) nonce) = msg
  have msgPayload : msg.messagePayload = packet.messagePayload := by rw [← msgEq]; rfl
  have msgEncrypted : msg.objectPayload = encrypted := by rw [← msgEq]; rfl
  rw [← msgPayload] at verified
  obtain ⟨own, _, found⟩ := @exists_decryptWith platform _ _ node.privAddresses
    ⟨recipient, held, opened⟩ (by
      intro other member
      by_cases same : other.privEncryptionKey = recipient.privEncryptionKey
      · exact .inl (same ▸ opened)
      · exact .inr (wrongKeys other member same))
  rw [Node.decryptMsg, msgEncrypted, found]
  simp only [Node.acceptMsg, fields, bind, Except.bind]
  split
  · rfl
  · simp only [senderOf] at verified ⊢
    simp only [verified, propagateAck_one]
    rfl

/-- Around its text a message is a little more than 500 bytes long. -/
theorem msgSent_length_le {message ripe encrypted pubKA : UString} (nonce : UInt64)
    (fromKeys : fromAddr.KeysMatch platform) (sealing : sealText draws fromAddr.privSigningKey
      (msgBase draws fromAddr).header (messageText platform fromAddr ripe message) pubKA =
        .ok encrypted) :
    (Node.withNonce (Node.queued (msgSent draws fromAddr encrypted)) nonce).messagePayload.length ≤
      ripe.length + message.length + 500 := by
  have size := sealText_length_ge sealing
  have header := Object.header_length_le (msgSent draws fromAddr encrypted)
  have sender := senderText_length_le fromKeys
  have encoding := appendVarIntB_length_le 1
  have count := appendVarIntB_length_le (UInt64.ofNat message.length)
  have ack : (appendVarUstringB [] [1]).length = 2 := rfl
  have rest : (msgSent draws fromAddr encrypted).objectPayload = encrypted := rfl
  rw [Node.withNonce_queued_payload, rest]
  rw [messageText_eq] at size
  simp only [List.length_append, appendInt64_length, ack] at size ⊢
  rw [appendVarUstringB, List.length_append] at size
  omega

/-- No message that `sendMessage` queues is accepted by its recipient. -/
theorem message_never_delivered (correct : platform.Correct)
    (fromKeys : fromAddr.KeysMatch platform) (loaded : recipient.Loaded platform)
    (recipientKeys : recipient.KeysMatch platform) (message : UString) {toAddr : PubAddr}
    (key : toAddr.pubEncryptionKey = recipient.pubEncryptionKey)
    (ripe : toAddr.ripe = recipient.base.ripe) {node : Node}
    (held : recipient ∈ node.privAddresses) (nonce : UInt64) (receiverDraws : Draws platform)
    (uninit : Uninit) :
    ∃ obj, (∀ sender : Node, sender.sendMessageKnown draws message toAddr fromAddr =
        .ok (sender.sendObj obj)) ∧
      ∀ packet : Packet,
        packet.messagePayload = (Node.withNonce (Node.queued obj) nonce).messagePayload →
        packet.messagePayload.length ≤ 0x40000 →
        (∀ other ∈ node.privAddresses, other.privEncryptionKey ≠ recipient.privEncryptionKey →
          ∃ failure, decode platform obj.objectPayload other.privEncryptionKey =
            .error failure) →
        ∃ wire, Object.ofPacket packet = .ok wire ∧
          node.decryptMsg receiverDraws uninit (PacketMsg.ofObject wire) = .ok (false, node) := by
  have twenty := loaded.consistent.ripe_length
  rw [← ripe] at twenty
  obtain ⟨encrypted, sealing, encoded⟩ := exists_msgObject draws fromAddr correct message
    recipientKeys key
  refine ⟨msgSent draws fromAddr encrypted, ?_, ?_⟩
  · intro sender
    simp only [Node.sendMessageKnown, encoded, bind, Except.bind]
    rfl
  · intro packet payload limit wrongKeys
    exact decryptMsg_msgSent correct fromKeys recipientKeys twenty sealing held payload limit
      wrongKeys receiverDraws uninit

/-- A node whose only address is the second sample address. -/
def Node.sampleHolder : Node := { Node.new with privAddresses := [Addr.sample 2] }

/-- On the sample platform, the only holder of the key does not accept the text. -/
theorem message_never_delivered_sample :
    ∃ obj, (∀ sender : Node, sender.sendMessageKnown Draws.sample [104, 105]
        (Addr.sampleContact 2) (Addr.sample 1) = .ok (sender.sendObj obj)) ∧
      ∀ packet : Packet,
        packet.messagePayload = (Node.withNonce (Node.queued obj) 7).messagePayload →
        packet.messagePayload.length ≤ 0x40000 →
        (∀ other ∈ Node.sampleHolder.privAddresses,
          other.privEncryptionKey ≠ (Addr.sample 2).privEncryptionKey →
          ∃ failure, decode Platform.sample obj.objectPayload other.privEncryptionKey =
            .error failure) →
        ∃ wire, Object.ofPacket packet = .ok wire ∧
          Node.sampleHolder.decryptMsg Draws.sample ⟨0, 0, 0, 0⟩ (PacketMsg.ofObject wire) =
            .ok (false, Node.sampleHolder) :=
  @message_never_delivered _ _ _ _ Platform.sample_correct (Addr.sample_spec 1).2.1
    (Addr.sample_loaded 2) (Addr.sample_spec 2).2.1 [104, 105] (Addr.sampleContact 2) rfl rfl
    Node.sampleHolder List.mem_cons_self 7 Draws.sample ⟨0, 0, 0, 0⟩

/-- A message that is within the size limit, reaches the only holder of the key, and
is lost. -/
theorem message_lost_sample :
    Platform.sample.Correct ∧ (Addr.sample 1).KeysMatch Platform.sample ∧
      (Addr.sample 2).KeysMatch Platform.sample ∧
      Addr.sample 2 ∈ Node.sampleHolder.privAddresses ∧
      (Addr.sampleContact 2).pubEncryptionKey = (Addr.sample 2).pubEncryptionKey ∧
      (Addr.sampleContact 2).ripe = (Addr.sample 2).base.ripe ∧
      ∃ obj packet wire, Node.new.sendMessageKnown Draws.sample [104, 105]
        (Addr.sampleContact 2) (Addr.sample 1) = .ok (Node.new.sendObj obj) ∧
      packet.messagePayload = (Node.withNonce (Node.queued obj) 7).messagePayload ∧
      packet.messagePayload.length ≤ 0x40000 ∧ Object.ofPacket packet = .ok wire ∧
      Node.sampleHolder.decryptMsg Draws.sample ⟨0, 0, 0, 0⟩ (PacketMsg.ofObject wire) =
        .ok (false, Node.sampleHolder) := by
  have fromKeys := (Addr.sample_spec 1).2.1
  have recipientKeys := (Addr.sample_spec 2).2.1
  have twenty : (Addr.sampleContact 2).ripe.length = 20 :=
    (Addr.sample_loaded 2).consistent.ripe_length
  obtain ⟨encrypted, sealing, encoded⟩ := exists_msgObject Draws.sample (Addr.sample 1)
    Platform.sample_correct [104, 105] recipientKeys
    (show (Addr.sampleContact 2).pubEncryptionKey = (Addr.sample 2).pubEncryptionKey from rfl)
  have size := msgSent_length_le 7 fromKeys sealing
  rw [twenty] at size
  have limit : (Node.withNonce (Node.queued (msgSent Draws.sample (Addr.sample 1) encrypted))
      7).messagePayload.length ≤ 0x40000 :=
    Nat.le_trans size (Nat.le_of_ble_eq_true rfl)
  let packet : Packet := {
    Draws.sample.memory.toPacket with
    messagePayload := (Node.withNonce (Node.queued (msgSent Draws.sample (Addr.sample 1)
      encrypted)) 7).messagePayload }
  have wrongKeys : ∀ other ∈ Node.sampleHolder.privAddresses,
      other.privEncryptionKey ≠ (Addr.sample 2).privEncryptionKey →
        ∃ failure, decode Platform.sample encrypted other.privEncryptionKey =
          .error failure := by
    intro other member different
    have only : other = Addr.sample 2 := List.mem_singleton.mp member
    exact absurd (congrArg Addr.privEncryptionKey only) different
  have held : Addr.sample 2 ∈ Node.sampleHolder.privAddresses := List.mem_cons_self
  have payload : packet.messagePayload = (Node.withNonce (Node.queued (msgSent Draws.sample
      (Addr.sample 1) encrypted)) 7).messagePayload := rfl
  obtain ⟨wire, decoded, rejected⟩ := decryptMsg_msgSent Platform.sample_correct fromKeys
    recipientKeys twenty sealing held payload limit wrongKeys Draws.sample ⟨0, 0, 0, 0⟩
  refine ⟨Platform.sample_correct, fromKeys, recipientKeys, held, rfl, rfl,
    msgSent Draws.sample (Addr.sample 1) encrypted, packet, wire, ?_, payload, limit, decoded,
    rejected⟩
  simp only [Node.sendMessageKnown, encoded, bind, Except.bind]
  rfl

end Message

/-! ## Broadcasts -/

section Broadcast

variable {own : Addr} {draws : Draws platform}

/-- The object `sendBroadcast` starts with. -/
def broadcastBase (draws : Draws platform) (own : Addr) : Object := {
  draws.object with
  time := draws.expiry
  objectType := typeBroadcast
  stream := varInt own.base.stream
  version := 5 }

/-- The object `sendBroadcast` queues. -/
def broadcastSent (draws : Draws platform) (own : Addr) (encrypted : UString) : Object := {
  (broadcastBase draws own).encodePayload with objectPayload := own.base.tag ++ encrypted }

theorem exists_broadcastObject (draws : Draws platform) (correct : platform.Correct)
    (message : UString) (full : (platform.publicPoint (beNat own.base.tagE)).FullWidth) :
    ∃ encrypted, sealText draws own.privSigningKey
        ((broadcastBase draws own).header ++ own.base.tag)
        (broadcastText platform own message) (getPubOfPriv platform own.base.tagE) =
          .ok encrypted ∧
      broadcastObject draws message own = .ok (broadcastSent draws own encrypted) := by
  obtain ⟨encrypted, sealing⟩ := exists_sealText correct full draws own.privSigningKey
    ((broadcastBase draws own).header ++ own.base.tag) (broadcastText platform own message)
  refine ⟨encrypted, sealing, ?_⟩
  have header := signedHeader_fresh (broadcastBase draws own) rfl
  have encoded : broadcastObject draws message own = (do
      let header ← Object.signedHeader.value
        (broadcastBase draws own).encodePayload.messagePayload 8
      let encrypted ← sealText draws own.privSigningKey (header ++ own.base.tag)
        (broadcastText platform own message) (getPubOfPriv platform own.base.tagE)
      let packet : PacketBroadcast := {
        (broadcastBase draws own).encodePayload with tag := own.base.tag, encrypted }
      return packet.encodeObject.toObject) := rfl
  rw [encoded, header]
  simp only [bind, Except.bind, sealing]
  rfl

/-- Around its text a broadcast is a little more than 500 bytes long. -/
theorem broadcastSent_length_le {message encrypted pubKA : UString} (nonce : UInt64)
    (keys : own.KeysMatch platform) (sealing : sealText draws own.privSigningKey
      ((broadcastBase draws own).header ++ own.base.tag) (broadcastText platform own message)
        pubKA = .ok encrypted) :
    (Node.withNonce (Node.queued (broadcastSent draws own encrypted)) nonce).messagePayload.length ≤
      own.base.tag.length + message.length + 500 := by
  have size := sealText_length_ge sealing
  have header := Object.header_length_le (broadcastSent draws own encrypted)
  have sender := senderText_length_le keys
  have encoding := appendVarIntB_length_le 1
  have count := appendVarIntB_length_le (UInt64.ofNat message.length)
  have rest : (broadcastSent draws own encrypted).objectPayload = own.base.tag ++ encrypted := rfl
  rw [Node.withNonce_queued_payload, rest]
  rw [broadcastText_eq] at size
  simp only [List.length_append, appendInt64_length] at size ⊢
  rw [appendVarUstringB, List.length_append] at size
  omega

/-- Version 5 goes straight to the first subscription with the tag. -/
theorem decryptBroadcastWith_of_tag {msg : PacketBroadcast} {subscription : PubAddr}
    {recovered : UString} {before : List PubAddr} (after : List PubAddr)
    (version : msg.version = 5)
    (tag : msg.tag = subscription.tag) (first : ∀ entry ∈ before, entry.tag ≠ msg.tag)
    (opened : decode platform msg.encrypted subscription.tagE = .ok recovered) :
    Node.decryptBroadcastWith platform msg (before ++ subscription :: after) =
      some (subscription, recovered) := by
  have other : ¬(msg.version = 4) := by rw [version]; decide
  induction before with
  | nil => simp [Node.decryptBroadcastWith, version, tag, opened]
  | cons entry before ih =>
      have different : ¬(msg.tag = entry.tag) :=
        fun equal => first entry List.mem_cons_self equal.symm
      rw [List.cons_append, Node.decryptBroadcastWith, if_neg other, if_pos version,
        if_neg different]
      exact ih fun entry member => first entry (List.mem_cons_of_mem _ member)

/-- The address that the receiver rebuilds is the one of the sender's keys. -/
theorem buildAddress_senderOf (keys : own.KeysMatch platform) {address : UString}
    (built : buildAddressFromKeys platform own.pubSigningKey own.pubEncryptionKey
      own.base.stream own.base.version = .ok address) :
    buildAddressFromKeys platform (senderOf platform own).pubSigningKey
      (senderOf platform own).pubEncryptionKey (senderOf platform own).stream
      (senderOf platform own).version = .ok address := by
  have digest : keyDigest platform (senderOf platform own).pubSigningKey
      (senderOf platform own).pubEncryptionKey =
      keyDigest platform own.pubSigningKey own.pubEncryptionKey := by
    have signing : withPrefix (senderOf platform own).pubSigningKey =
        withPrefix own.pubSigningKey := by
      simp [withPrefix, senderOf, keys.pubSigning_encode, Point.encode, Block.toUString]
    have encryption : withPrefix (senderOf platform own).pubEncryptionKey =
        withPrefix own.pubEncryptionKey := by
      simp [withPrefix, senderOf, keys.pubEncryption_encode, Point.encode, Block.toUString]
    rw [keyDigest, signing, encryption, keyDigest]
  rw [← built, buildAddressFromKeys, digest, buildAddressFromKeys]
  rfl

/-- Whoever holds the tags of a subscription can send to it: what was sealed with any
matching keys is stored under the address of these keys. -/
theorem decryptBroadcast_sealed (correct : platform.Correct) (keys : own.KeysMatch platform)
    (full : (platform.publicPoint (beNat own.base.tagE)).FullWidth)
    (tag32 : own.base.tag.length = 32) (tagE32 : own.base.tagE.length = 32) {address : UString}
    (built : buildAddressFromKeys platform own.pubSigningKey own.pubEncryptionKey
      own.base.stream own.base.version = .ok address) {message encrypted : UString}
    (sealing : sealText draws own.privSigningKey
      ((broadcastBase draws own).header ++ own.base.tag) (broadcastText platform own message)
      (getPubOfPriv platform own.base.tagE) = .ok encrypted) {subscription : PubAddr}
    (tagEq : own.base.tag = subscription.tag) (tagEEq : own.base.tagE = subscription.tagE)
    {node : Node} {earlier later : List PubAddr}
    (subscribed : node.subscriptions = earlier ++ subscription :: later)
    (first : ∀ entry ∈ earlier, entry.tag ≠ own.base.tag) {nonce : UInt64} {packet : Packet}
    (payload : packet.messagePayload =
      (Node.withNonce (Node.queued (broadcastSent draws own encrypted)) nonce).messagePayload)
    (limit : packet.messagePayload.length ≤ 0x40000) (receiverDraws : Draws platform)
    (uninit : Uninit) :
    ∃ wire received after, Object.ofPacket packet = .ok wire ∧
      PacketBroadcast.ofObject wire = .ok received ∧
      node.decryptBroadcast receiverDraws uninit received = .ok (true, after) ∧
      ∃ stored, after.messages.Stored stored ∧ stored.info = message ∧
        stored.«from» = address := by
  have short := lt_intLimit limit
  have length := congrArg List.length payload
  rw [Node.withNonce_queued_payload] at length
  have rest : (broadcastSent draws own encrypted).objectPayload = own.base.tag ++ encrypted :=
    rfl
  simp only [rest, List.length_append, appendInt64_length] at length
  obtain ⟨decoded, signed⟩ := Node.decode_withNonce_queued payload short
  have tagged := readTagged_append encrypted tag32
  -- the subscription holds the tag key of the sender
  obtain ⟨sign, signEq, opened, dataShort⟩ :=
    decode_sealText correct full tagE32 sealing (by omega)
  have fields := readBroadcastPlain_text keys dataShort
  have verified := checkSigned_sealed correct keys signed signEq dataShort
  rw [tagEEq] at opened
  generalize msgEq : ({
    (Node.received packet (broadcastSent draws own encrypted) nonce).copy with
    tag := own.base.tag
    encrypted } : PacketBroadcast) = msg
  have version : msg.version = 5 := by rw [← msgEq]; rfl
  have msgTag : msg.tag = own.base.tag := by rw [← msgEq]
  have msgPayload : msg.messagePayload = packet.messagePayload := by rw [← msgEq]; rfl
  have msgEncrypted : msg.encrypted = encrypted := by rw [← msgEq]
  have found := decryptBroadcastWith_of_tag later version (msgTag.trans tagEq)
    (by rwa [msgTag]) (by rw [msgEncrypted]; exact opened)
  have signedTag : Node.signedTag msg = own.base.tag := (if_pos version).trans msgTag
  rw [← msgPayload, ← signedTag] at verified
  obtain ⟨after, accepted, messages⟩ := exists_acceptBroadcast_of_check node receiverDraws uninit
    fields verified (buildAddress_senderOf keys built)
  refine ⟨_, msg, after, decoded, ?_, ?_, ?_⟩
  · rw [← msgEq]
    exact PacketBroadcast.ofObject_tagged rfl tagged
  · simp only [Node.decryptBroadcast, subscribed, found, accepted, tryCatchAll_ok]
  · obtain ⟨entry, member, info⟩ := HashTable.exists_mem_insert node.messages
      receiverDraws.buffer ⟨address, Node.broadcastRecipient, message, sign⟩ sign
    rw [← messages] at member
    exact ⟨_, ⟨_, entry, member, info⟩, rfl, rfl⟩

/-- End-to-end delivery of broadcasts. -/
theorem broadcast_delivered (correct : platform.Correct) (loaded : own.Loaded platform)
    (keys : own.KeysMatch platform)
    (full : (platform.publicPoint (beNat own.base.tagE)).FullWidth) (message : UString)
    {before subscription : PubAddr}
    (sameAddress : before.loadAddr platform own.base.address = .ok (true, subscription))
    {node : Node} {earlier later : List PubAddr}
    (subscribed : node.subscriptions = earlier ++ subscription :: later)
    (first : ∀ entry ∈ earlier, entry.tag ≠ own.base.tag) (nonce : UInt64)
    (receiverDraws : Draws platform) (uninit : Uninit) :
    ∃ obj, (∀ sender : Node, sender.sendBroadcast draws message own = .ok (sender.sendObj obj)) ∧
      ∀ packet : Packet,
        packet.messagePayload = (Node.withNonce (Node.queued obj) nonce).messagePayload →
        packet.messagePayload.length ≤ 0x40000 →
        ∃ wire received after, Object.ofPacket packet = .ok wire ∧
          PacketBroadcast.ofObject wire = .ok received ∧
          node.decryptBroadcast receiverDraws uninit received = .ok (true, after) ∧
          ∃ stored, after.messages.Stored stored ∧ stored.info = message ∧
            stored.«from» = own.base.address := by
  have consistent := loaded.consistent
  obtain ⟨encrypted, sealing, encoded⟩ := exists_broadcastObject draws correct
    message full
  obtain ⟨tagEq, tagEEq⟩ := consistent.same_tags sameAddress
  refine ⟨broadcastSent draws own encrypted, ?_, ?_⟩
  · intro sender
    simp only [Node.sendBroadcast, encoded, bind, Except.bind]
    rfl
  · intro packet payload limit
    exact decryptBroadcast_sealed correct keys full consistent.tag_length consistent.tagE_length
      consistent.built sealing tagEq tagEEq subscribed first payload limit receiverDraws uninit

/-- A node that subscribes to the first sample address. -/
def Node.sampleSubscriber : Node := { Node.new with subscriptions := [Addr.sampleEntry 1] }

/-- Delivery of a broadcast on the sample platform. -/
theorem broadcast_delivered_sample :
    ∃ obj, (∀ sender : Node, sender.sendBroadcast Draws.sample [104, 105] (Addr.sample 1) =
        .ok (sender.sendObj obj)) ∧
      ∀ packet : Packet,
        packet.messagePayload = (Node.withNonce (Node.queued obj) 7).messagePayload →
        packet.messagePayload.length ≤ 0x40000 →
        ∃ wire received after, Object.ofPacket packet = .ok wire ∧
          PacketBroadcast.ofObject wire = .ok received ∧
          Node.sampleSubscriber.decryptBroadcast Draws.sample ⟨0, 0, 0, 0⟩ received =
            .ok (true, after) ∧
          ∃ stored, after.messages.Stored stored ∧ stored.info = [104, 105] ∧
            stored.«from» = (Addr.sample 1).base.address :=
  broadcast_delivered Platform.sample_correct (Addr.sample_loaded 1) (Addr.sample_spec 1).2.1
    (Platform.sample_fullWidth _) [104, 105] (Addr.sampleEntry_loads 1)
    (show Node.sampleSubscriber.subscriptions = [] ++ Addr.sampleEntry 1 :: [] from rfl)
    (by simp) 7 Draws.sample ⟨0, 0, 0, 0⟩

end Broadcast

end BitMRC

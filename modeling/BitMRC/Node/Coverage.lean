import BitMRC.Node.Forgery
import BitMRC.Node.SignedText

/-!
# What a signature covers

A recipient is shown the sender, the recipient and the text of a message.  These
are fixed by the part of the decrypted text that the signature covers as long as
no length in it leads back.  Every text with such a length is accepted in a second
version that shows something else behind the same signed part.
-/

namespace BitMRC

open Foundation UString

variable {platform : Platform}

/-! ## Any signature check -/

/-- The same platform with another signature check. -/
def Platform.withCheck (platform : Platform) (verify : Point → Block 64 → UString → Bool)
    (berDecode : UString → Option (Block 64)) : Platform :=
  { platform with verify, berDecode }

/-- The draws do not depend on the check. -/
def Draws.withCheck (draws : Draws platform) (verify : Point → Block 64 → UString → Bool)
    (berDecode : UString → Option (Block 64)) : Draws (platform.withCheck verify berDecode) where
  now := draws.now
  random := draws.random
  random_range := draws.random_range
  ephemeral := draws.ephemeral
  ephemeral_lt := draws.ephemeral_lt
  ephemeral_valid := draws.ephemeral_valid
  iv := draws.iv
  seed := draws.seed
  memory := draws.memory
  buffer := draws.buffer
  storing := draws.storing

/-! ## What is shown and what is signed -/

/-- The members of a stored message that its recipient is shown. -/
structure Shown where
  «from» : UString
  «to» : UString
  info : UString
  deriving DecidableEq

def Message.shown (message : Message) : Shown where
  «from» := message.«from»
  «to» := message.«to»
  info := message.info

namespace Node

/-- What an accepted message shows at the address `own`. -/
def shownMsg (platform : Platform) (own : Addr) (recovered : UString) : Except Exn Shown := do
  let plain ← readMsgPlain.value recovered 0
  let «from» ← buildAddressFromKeys platform plain.sender.pubSigningKey
    plain.sender.pubEncryptionKey plain.sender.stream plain.sender.version
  return { «from», «to» := own.base.address, info := plain.message }

/-- What an accepted broadcast shows. -/
def shownBroadcast (platform : Platform) (recovered : UString) : Except Exn Shown := do
  let plain ← readBroadcastPlain.value recovered 0
  let «from» ← buildAddressFromKeys platform plain.sender.pubSigningKey
    plain.sender.pubEncryptionKey plain.sender.stream plain.sender.version
  return { «from», «to» := broadcastRecipient, info := plain.message }

/-- The signed part of a message. -/
def signedMsg (recovered : UString) : Except Exn UString := do
  let plain ← readMsgPlain.value recovered 0
  (getUstring (toInt plain.k)).value recovered 0

/-- The signed part of a broadcast. -/
def signedBroadcast (recovered : UString) : Except Exn UString := do
  let plain ← readBroadcastPlain.value recovered 0
  (getUstring (toInt plain.k)).value recovered 0

/-- Whatever the signature check is: a second text that is accepted at the same address
under the same header, with the same signed part, shows the same. -/
def MsgCovered (platform : Platform) (own : Addr) (recovered : UString) : Prop :=
  ∀ verify berDecode (draws draws' : Draws (platform.withCheck verify berDecode))
    (uninit uninit' : Uninit) (self after after' : Node) (msg msg' : PacketMsg) (other : UString),
    Object.signedHeader.value msg.messagePayload 8 =
      Object.signedHeader.value msg'.messagePayload 8 →
    other.length < intLimit →
    self.acceptMsg draws uninit msg own recovered = .ok (true, after) →
    self.acceptMsg draws' uninit' msg' own other = .ok (true, after') →
    signedMsg recovered = signedMsg other →
    shownMsg platform own recovered = shownMsg platform own other

/-- The same for broadcasts with the same tag. -/
def BroadcastCovered (platform : Platform) (recovered : UString) : Prop :=
  ∀ verify berDecode (draws draws' : Draws (platform.withCheck verify berDecode))
    (uninit uninit' : Uninit) (self after after' : Node) (msg msg' : PacketBroadcast)
    (other : UString),
    Object.signedHeader.value msg.messagePayload 8 =
      Object.signedHeader.value msg'.messagePayload 8 →
    signedTag msg = signedTag msg' →
    other.length < intLimit →
    self.acceptBroadcast draws uninit msg recovered = .ok (true, after) →
    self.acceptBroadcast draws' uninit' msg' other = .ok (true, after') →
    signedBroadcast recovered = signedBroadcast other →
    shownBroadcast platform recovered = shownBroadcast platform other

end Node

/-- The two lengths that a message declares, as `int`, with the number of bytes that the
second one takes itself. -/
def readMsgLengths : Reader (Int × Int × Nat) := do
  let _ ← readMsgHead
  let message ← getVarIntB
  let _ ← getUstring message.toInt32.toInt
  let start ← Cursor.position
  let ackData ← getVarIntB
  let stop ← Cursor.position
  return (message.toInt32.toInt, ackData.toInt32.toInt, stop - start)

/-- The place where a broadcast declares its length, and the length as an `int`. -/
def readBroadcastLength : Reader (Nat × Int) := do
  let _ ← readBroadcastHead
  let start ← Cursor.position
  let message ← getVarIntB
  return (start, message.toInt32.toInt)

/-- Neither length leads back into the text: the first is not negative, the second at
most by the bytes it takes itself. -/
def MsgForward (recovered : UString) : Prop :=
  ∃ message ackData size, readMsgLengths.value recovered 0 = .ok (message, ackData, size) ∧
    0 ≤ message ∧ -(size : Int) ≤ ackData

/-- The length is there and does not lead back. -/
def BroadcastForward (recovered : UString) : Prop :=
  ∃ start message, readBroadcastLength.value recovered 0 = .ok (start, message) ∧
    start < recovered.length ∧ 0 ≤ message

/-! ## Reading -/

/-- How a message was read. -/
structure MsgRead (s : UString) (plain : MsgPlain) (lengthAt textAt ackAt ackDataAt : Nat)
    (len ackLen : Int) : Prop extends
    TextRead readMsgHead s (plain.sender, plain.destRipe) lengthAt textAt ackAt len
      plain.message where
  ackLength_eq : ∃ word : Int64, word.toInt32.toInt = ackLen ∧
    getVarIntB s ackAt = .ok (word, ackDataAt)
  ack_eq : getUstring ackLen s ackDataAt = .ok (plain.ackData, plain.k)
  sign_eq : ∃ stop, getVarUstringB s plain.k = .ok (plain.sign, stop)

/-- How a broadcast was read. -/
structure BroadcastRead (s : UString) (plain : BroadcastPlain) (lengthAt textAt : Nat)
    (len : Int) : Prop extends
    TextRead readBroadcastHead s plain.sender lengthAt textAt plain.k len plain.message where
  sign_eq : ∃ stop, getVarUstringB s plain.k = .ok (plain.sign, stop)

theorem readMsgPlain_value {s : UString} {plain : MsgPlain} :
    readMsgPlain.value s 0 = .ok plain ↔ ∃ lengthAt textAt ackAt ackDataAt len ackLen,
      MsgRead s plain lengthAt textAt ackAt ackDataAt len ackLen := by
  rw [readMsgPlain_eq, Cursor.value_eq_ok]
  constructor
  · rintro ⟨_, read⟩
    obtain ⟨⟨sender, destRipe⟩, lengthAt, head, read⟩ := Cursor.bind_eq_ok.mp read
    obtain ⟨message, ackAt, readText, read⟩ := Cursor.bind_eq_ok.mp read
    obtain ⟨ackData, k, readAck, read⟩ := Cursor.bind_eq_ok.mp read
    obtain ⟨_, _, here, read⟩ := Cursor.bind_eq_ok.mp read
    cases here
    obtain ⟨sign, _, readSign, read⟩ := Cursor.bind_eq_ok.mp read
    cases read
    obtain ⟨word, textAt, length, text⟩ := getVarUstringB_eq_ok.mp readText
    obtain ⟨ackWord, ackDataAt, ackLength, ack⟩ := getVarUstringB_eq_ok.mp readAck
    exact ⟨lengthAt, textAt, ackAt, ackDataAt, _, _, ⟨head, ⟨word, rfl, length⟩, text⟩,
      ⟨ackWord, rfl, ackLength⟩, ack, _, readSign⟩
  · rintro ⟨lengthAt, textAt, ackAt, ackDataAt, len, ackLen, read⟩
    obtain ⟨⟨head, ⟨word, rfl, length⟩, text⟩, ⟨ackWord, rfl, ackLength⟩, ack, stop, sign⟩ := read
    have readText := getVarUstringB_eq_ok.mpr ⟨word, textAt, length, text⟩
    have readAck := getVarUstringB_eq_ok.mpr ⟨ackWord, ackDataAt, ackLength, ack⟩
    refine ⟨stop, ?_⟩
    rw [Cursor.bind_of_ok head]
    dsimp only
    rw [Cursor.bind_of_ok readText, Cursor.bind_of_ok readAck,
      Cursor.bind_of_ok (Cursor.position_apply _ _), Cursor.bind_of_ok sign, Cursor.pure_apply]

theorem readBroadcastPlain_value {s : UString} {plain : BroadcastPlain} :
    readBroadcastPlain.value s 0 = .ok plain ↔ ∃ lengthAt textAt len,
      BroadcastRead s plain lengthAt textAt len := by
  rw [readBroadcastPlain_eq, Cursor.value_eq_ok]
  constructor
  · rintro ⟨_, read⟩
    obtain ⟨sender, lengthAt, head, read⟩ := Cursor.bind_eq_ok.mp read
    obtain ⟨message, k, readText, read⟩ := Cursor.bind_eq_ok.mp read
    obtain ⟨_, _, here, read⟩ := Cursor.bind_eq_ok.mp read
    cases here
    obtain ⟨sign, _, readSign, read⟩ := Cursor.bind_eq_ok.mp read
    cases read
    obtain ⟨word, textAt, length, text⟩ := getVarUstringB_eq_ok.mp readText
    exact ⟨lengthAt, textAt, _, ⟨head, ⟨word, rfl, length⟩, text⟩, _, readSign⟩
  · rintro ⟨lengthAt, textAt, len, ⟨head, ⟨word, rfl, length⟩, text⟩, stop, sign⟩
    have readText := getVarUstringB_eq_ok.mpr ⟨word, textAt, length, text⟩
    refine ⟨stop, ?_⟩
    rw [Cursor.bind_of_ok head, Cursor.bind_of_ok readText,
      Cursor.bind_of_ok (Cursor.position_apply _ _), Cursor.bind_of_ok sign, Cursor.pure_apply]

theorem MsgRead.lengths {s : UString} {plain : MsgPlain} {lengthAt textAt ackAt ackDataAt : Nat}
    {len ackLen : Int} (read : MsgRead s plain lengthAt textAt ackAt ackDataAt len ackLen) :
    readMsgLengths.value s 0 = .ok (len, ackLen, ackDataAt - ackAt) := by
  obtain ⟨⟨head, ⟨word, rfl, length⟩, text⟩, ⟨ackWord, rfl, ackLength⟩, _, _, _⟩ := read
  apply Cursor.value_of_ok
  rw [readMsgLengths, Cursor.bind_of_ok head, Cursor.bind_of_ok length, Cursor.bind_of_ok text,
    Cursor.bind_of_ok (Cursor.position_apply _ _), Cursor.bind_of_ok ackLength,
    Cursor.bind_of_ok (Cursor.position_apply _ _), Cursor.pure_apply]

theorem BroadcastRead.length {s : UString} {plain : BroadcastPlain} {lengthAt textAt : Nat}
    {len : Int} (read : BroadcastRead s plain lengthAt textAt len) :
    readBroadcastLength.value s 0 = .ok (lengthAt, len) := by
  obtain ⟨⟨head, ⟨word, rfl, length⟩, _⟩, _⟩ := read
  apply Cursor.value_of_ok
  rw [readBroadcastLength, Cursor.bind_of_ok head,
    Cursor.bind_of_ok (Cursor.position_apply _ _), Cursor.bind_of_ok length, Cursor.pure_apply]

/-! ## Acknowledgements -/

/-- What `propagate(ack)` needs of an acknowledgement: a frame with an object in it. -/
def AckReads (ackData : UString) : Prop :=
  ∃ packet obj, Packet.ofUString ackData = .ok packet ∧ Object.ofPacket packet = .ok obj

theorem frame_payload {data : UString} {packet : Packet}
    (frame : Packet.ofUString data = .ok packet) :
    packet.messagePayload.length ≤ data.length := by
  obtain ⟨_, read⟩ := Cursor.value_eq_ok.mp frame
  rw [Packet.read_eq] at read
  obtain ⟨_, _, _, read⟩ := Cursor.bind_eq_ok.mp read
  obtain ⟨_, _, readRest, read⟩ := Cursor.bind_eq_ok.mp read
  cases read
  exact getRest_length readRest

theorem exists_propagateAck {self : Node} (draws : Draws platform) {ackData : UString}
    (short : ackData.length < intLimit) (reads : AckReads ackData) :
    ∃ after, self.propagateAck draws ackData = .ok after := by
  obtain ⟨packet, obj, frame, decoded⟩ := reads
  have payload : packet.copy.messagePayload.length < intLimit :=
    Nat.lt_of_le_of_lt (show packet.messagePayload.length ≤ ackData.length from
      frame_payload frame) short
  have eight : 8 ≤ obj.messagePayload.length := by
    rw [(Object.decodeData_payload decoded rfl).2]
    exact Object.decodeData_eight payload decoded
  obtain ⟨valid, validated⟩ := Node.exists_validateObj platform draws.now eight
  simp only [Node.propagateAck, Node.propagate, frame, decoded, validated, bind, Except.bind]
  cases valid with
  | true => exact ⟨_, rfl⟩
  | false => exact ⟨_, rfl⟩

/-- Zeros behind an acknowledgement do no harm. -/
theorem AckReads.append {ackData : UString} (reads : AckReads ackData)
    (short : ackData.length < intLimit) : ∃ n ≤ 2, ∀ tail : UString,
      (ackData ++ (List.replicate n 0 ++ tail)).length < intLimit →
      AckReads (ackData ++ (List.replicate n 0 ++ tail)) := by
  obtain ⟨packet, obj, frame, decoded⟩ := reads
  rw [Packet.ofUString, Packet.read_eq] at frame
  obtain ⟨fields, payload, packetEq, payloadLe, none, noneLe, framed⟩ :=
    rest_padded Packet.readHead_padded short frame
  have zero : none = 0 := Nat.le_zero.mp noneLe
  subst zero
  subst packetEq
  rw [Object.ofPacket, Object.decodeData, Object.readData_eq] at decoded
  obtain ⟨_, _, _, _, n, nLe, padded⟩ := rest_padded Object.readHead_padded
    (Nat.lt_of_le_of_lt payloadLe short) decoded
  refine ⟨n, nLe, ?_⟩
  intro tail fits
  obtain ⟨stop, _, frameHead, frameRest⟩ :=
    framed (List.replicate n 0 ++ tail) (by simpa using fits)
  simp only [List.replicate_zero, List.append_nil] at frameHead frameRest
  have longer : (payload ++ List.replicate n 0 ++ tail).length < intLimit := by
    simp only [List.length_append, List.length_replicate] at fits ⊢
    omega
  obtain ⟨objStop, _, objHead, objRest⟩ := padded tail longer
  rw [List.append_assoc] at objHead objRest
  have framed' : ∃ packet, Packet.ofUString (ackData ++ (List.replicate n 0 ++ tail)) =
      .ok packet ∧ packet.messagePayload = payload ++ (List.replicate n 0 ++ tail) := by
    rw [Packet.ofUString, Packet.read_eq]
    exact ⟨_, Cursor.value_of_ok (Cursor.bind_eq_ok.mpr ⟨_, _, frameHead,
      Cursor.bind_eq_ok.mpr ⟨_, _, frameRest, Cursor.pure_apply _ _ _⟩⟩), rfl⟩
  obtain ⟨packet, frame', packetPayload⟩ := framed'
  have copied : packet.copy.messagePayload = payload ++ (List.replicate n 0 ++ tail) :=
    packetPayload
  have decoded' : ∃ obj, Object.ofPacket packet = .ok obj := by
    rw [Object.ofPacket, Object.decodeData, Object.readData_eq, copied]
    exact ⟨_, Cursor.value_of_ok (Cursor.bind_eq_ok.mpr ⟨_, _, objHead,
      Cursor.bind_eq_ok.mpr ⟨_, _, objRest, Cursor.pure_apply _ _ _⟩⟩)⟩
  obtain ⟨obj', decoded'⟩ := decoded'
  exact ⟨packet, obj', frame', decoded'⟩

theorem propagateAck_messages {self after : Node} {draws : Draws platform} {ackData : UString}
    (result : self.propagateAck draws ackData = .ok after) :
    AckReads ackData ∧ after.messages = self.messages := by
  unfold Node.propagateAck Node.propagate at result
  obtain ⟨packet, frame, result⟩ := bind_eq_ok.mp result
  obtain ⟨obj, decoded, result⟩ := bind_eq_ok.mp result
  obtain ⟨valid, _, result⟩ := bind_eq_ok.mp result
  refine ⟨⟨packet, obj, frame, decoded⟩, ?_⟩
  split at result
  next =>
    cases result
    rfl
  next =>
    cases result
    rfl

/-! ## Accepted texts -/

variable {self after : Node} {draws : Draws platform} {uninit : Uninit}

theorem checkSigned_eq_ok {payload tag recovered pubSigningKey sign : UString} {k : Nat}
    {verified : Bool} (check :
      Node.checkSigned platform payload tag recovered pubSigningKey sign k = .ok verified) :
    (∃ point, (readPoint platform).value pubSigningKey 0 = .ok point) ∧
      ∃ header, Object.signedHeader.value payload 8 = .ok header := by
  unfold Node.checkSigned at check
  obtain ⟨point, key, check⟩ := bind_eq_ok.mp check
  obtain ⟨header, signed, _⟩ := bind_eq_ok.mp check
  exact ⟨⟨point, key⟩, header, signed⟩

/-- What an accepted message went through, and what was stored. -/
theorem acceptMsg_eq_ok {msg : PacketMsg} {own : Addr} {recovered : UString}
    (result : self.acceptMsg draws uninit msg own recovered = .ok (true, after)) :
    ∃ (plain : MsgPlain) (address : UString), readMsgPlain.value recovered 0 = .ok plain ∧
      plain.destRipe = own.base.ripe ∧
      Node.checkSigned platform msg.messagePayload [] recovered plain.sender.pubSigningKey
        plain.sign plain.k = .ok true ∧
      AckReads plain.ackData ∧
      buildAddressFromKeys platform plain.sender.pubSigningKey plain.sender.pubEncryptionKey
        plain.sender.stream plain.sender.version = .ok address ∧
      after.messages = (self.messages.insert draws.buffer
        ⟨address, own.base.address, plain.message, plain.sign⟩ plain.sign).2 := by
  unfold Node.acceptMsg at result
  obtain ⟨plain, read, result⟩ := bind_eq_ok.mp result
  split at result
  next => cases result
  next ripe =>
    obtain ⟨verified, check, result⟩ := bind_eq_ok.mp result
    split at result
    next signed =>
      subst signed
      obtain ⟨acked, ack, result⟩ := bind_eq_ok.mp result
      obtain ⟨reads, messages⟩ := propagateAck_messages ack
      rcases tryCatchAll_eq_ok result with stored | refused
      · obtain ⟨final, store, stored⟩ := bind_eq_ok.mp stored
        cases stored
        obtain ⟨address, built, inserted⟩ := storeMessage_messages store
        rw [messages] at inserted
        exact ⟨plain, address, read, Decidable.not_not.mp ripe, check, reads, built, inserted⟩
      · cases refused
    next => cases result

theorem acceptBroadcast_eq_ok {msg : PacketBroadcast} {recovered : UString}
    (result : self.acceptBroadcast draws uninit msg recovered = .ok (true, after)) :
    ∃ (plain : BroadcastPlain) (address : UString),
      readBroadcastPlain.value recovered 0 = .ok plain ∧
      Node.checkSigned platform msg.messagePayload (Node.signedTag msg) recovered
        plain.sender.pubSigningKey plain.sign plain.k = .ok true ∧
      buildAddressFromKeys platform plain.sender.pubSigningKey plain.sender.pubEncryptionKey
        plain.sender.stream plain.sender.version = .ok address ∧
      after.messages = (self.messages.insert draws.buffer
        ⟨address, Node.broadcastRecipient, plain.message, plain.sign⟩ plain.sign).2 := by
  unfold Node.acceptBroadcast at result
  obtain ⟨plain, read, result⟩ := bind_eq_ok.mp result
  obtain ⟨verified, check, result⟩ := bind_eq_ok.mp result
  split at result
  next signed =>
    subst signed
    obtain ⟨final, store, result⟩ := bind_eq_ok.mp result
    cases result
    obtain ⟨address, built, inserted⟩ := storeMessage_messages store
    exact ⟨plain, address, read, check, built, inserted⟩
  next => cases result

/-! ## A check that accepts everything -/

/-- A signature check that holds of everything. -/
def Platform.trusting (platform : Platform) : Platform :=
  platform.withCheck (fun _ _ _ => true) fun _ => some ⟨List.replicate 64 0, rfl⟩

def Draws.trusting (draws : Draws platform) : Draws platform.trusting :=
  draws.withCheck _ _

theorem checkSigned_trusting {payload tag recovered pubSigningKey sign header : UString}
    {point : Point} (k : Nat) (key : (readPoint platform).value pubSigningKey 0 = .ok point)
    (signed : Object.signedHeader.value payload 8 = .ok header) :
    Node.checkSigned platform.trusting payload tag recovered pubSigningKey sign k = .ok true := by
  have text : (getUstring (toInt k)).value recovered 0 =
      .ok ((recovered.drop 0).take (sizeT (toInt k))) :=
    Cursor.value_of_ok (getUstring_eq_ok.mpr ⟨Nat.zero_le _, rfl, rfl⟩)
  have same : (readPoint platform.trusting).value pubSigningKey 0 = .ok point := key
  simp only [Node.checkSigned, same, signed, text, bind, Except.bind]
  rfl

theorem exists_acceptMsg (self : Node) (draws : Draws platform) (uninit : Uninit)
    {msg : PacketMsg} {own : Addr} {recovered header address : UString} {plain : MsgPlain}
    {point : Point} (read : readMsgPlain.value recovered 0 = .ok plain)
    (ripe : plain.destRipe = own.base.ripe)
    (key : (readPoint platform).value plain.sender.pubSigningKey 0 = .ok point)
    (signed : Object.signedHeader.value msg.messagePayload 8 = .ok header)
    (short : plain.ackData.length < intLimit) (ack : AckReads plain.ackData)
    (built : buildAddressFromKeys platform plain.sender.pubSigningKey
      plain.sender.pubEncryptionKey plain.sender.stream plain.sender.version = .ok address) :
    ∃ after, self.acceptMsg draws.trusting uninit msg own recovered = .ok (true, after) := by
  have check := @checkSigned_trusting _ _ [] recovered _ plain.sign _ _ plain.k key signed
  obtain ⟨acked, propagated⟩ := @exists_propagateAck _ self draws.trusting _ short ack
  obtain ⟨after, stored, _⟩ := exists_storeMessage draws.trusting uninit acked own.base.address
    plain.message plain.sign built
  refine ⟨after, ?_⟩
  have known : ¬(plain.destRipe ≠ own.base.ripe) := Decidable.not_not.mpr ripe
  simp only [Node.acceptMsg, read, bind, Except.bind, if_neg known, check, if_true, propagated,
    stored, pure, Except.pure, tryCatchAll_ok]

theorem exists_acceptBroadcast (self : Node) (draws : Draws platform) (uninit : Uninit)
    {msg : PacketBroadcast} {recovered header address : UString}
    {plain : BroadcastPlain} {point : Point}
    (read : readBroadcastPlain.value recovered 0 = .ok plain)
    (key : (readPoint platform).value plain.sender.pubSigningKey 0 = .ok point)
    (signed : Object.signedHeader.value msg.messagePayload 8 = .ok header)
    (built : buildAddressFromKeys platform plain.sender.pubSigningKey
      plain.sender.pubEncryptionKey plain.sender.stream plain.sender.version = .ok address) :
    ∃ after, self.acceptBroadcast draws.trusting uninit msg recovered = .ok (true, after) := by
  have check := @checkSigned_trusting _ _ (Node.signedTag msg) recovered _ plain.sign _ _
    plain.k key signed
  obtain ⟨after, accepted, _⟩ :=
    exists_acceptBroadcast_of_check self draws.trusting uninit read check built
  exact ⟨after, accepted⟩

/-! ## Texts without a way back -/

theorem signed_take {s : UString} {k : Nat} {sign : UString} {stop : Nat}
    (short : s.length < intLimit) (read : getVarUstringB s k = .ok (sign, stop)) :
    k ≤ s.length ∧ (getUstring (toInt k)).value s 0 = .ok (s.take k) := by
  have inside := getVarUstringB_inside short read
  exact ⟨inside, getUstring_take short inside⟩

/-- Equal signed parts have equal lengths and agree in front of every earlier place. -/
theorem take_eq_of_signed {left right : UString} {k k' bound : Nat} (inside : k ≤ left.length)
    (inside' : k' ≤ right.length) (same : left.take k = right.take k') (le : bound ≤ k) :
    k' = k ∧ left.take bound = right.take bound := by
  have lengths := congrArg List.length same
  rw [List.length_take_of_le inside, List.length_take_of_le inside'] at lengths
  subst lengths
  have shorter := congrArg (List.take bound) same
  rw [List.take_take, List.take_take, Nat.min_eq_left le] at shorter
  exact ⟨rfl, shorter⟩

theorem AckReads.length {ackData : UString} (reads : AckReads ackData)
    (short : ackData.length < intLimit) : 4 ≤ ackData.length := by
  obtain ⟨packet, _, frame, _⟩ := reads
  obtain ⟨_, read⟩ := Cursor.value_eq_ok.mp frame
  obtain ⟨_, _, readMagic, _⟩ := Cursor.bind_eq_ok.mp read
  have room := (getInt32_fixed.room short readMagic).1
  omega

theorem MsgRead.ackData_length {s : UString} {plain : MsgPlain}
    {lengthAt textAt ackAt ackDataAt : Nat} {len ackLen : Int}
    (read : MsgRead s plain lengthAt textAt ackAt ackDataAt len ackLen) :
    ackDataAt + plain.ackData.length ≤ s.length := by
  obtain ⟨inside, value, _⟩ := getUstring_eq_ok.mp read.ack_eq
  rw [value, List.length_take, List.length_drop]
  omega

theorem msgCovered_of_forward {own : Addr} {recovered : UString}
    (short : recovered.length ≤ 0x40000) (forward : MsgForward recovered) :
    Node.MsgCovered platform own recovered := by
  intro verify berDecode draws draws' uninit uninit' self after after' msg msg' other _ otherShort
    accepted accepted' sameSigned
  obtain ⟨plain, _, value, _, _, ack, _⟩ := acceptMsg_eq_ok accepted
  obtain ⟨plain', _, value', _⟩ := acceptMsg_eq_ok accepted'
  obtain ⟨lengthAt, textAt, ackAt, ackDataAt, len, ackLen, read⟩ := readMsgPlain_value.mp value
  obtain ⟨_, _, _, _, _, _, read'⟩ := readMsgPlain_value.mp value'
  obtain ⟨_, _, _, lengths, positive, back⟩ := forward
  cases read.lengths.symm.trans lengths
  have less := lt_intLimit short
  obtain ⟨_, sign⟩ := read.sign_eq
  obtain ⟨_, sign'⟩ := read'.sign_eq
  obtain ⟨inside, signed⟩ := signed_take less sign
  obtain ⟨inside', signed'⟩ := signed_take otherShort sign'
  have sameTake : recovered.take plain.k = other.take plain'.k := by
    simp only [Node.signedMsg, value, value', bind, Except.bind, signed, signed'] at sameSigned
    exact Except.ok.inj sameSigned
  -- the acknowledgement holds a frame, so the text ends in front of other bytes
  have ackInside := read.ackData_length
  have ackSize := ack.length (by omega)
  obtain ⟨ackWord, ackWordEq, ackLength⟩ := read.ackLength_eq
  have ackForward := getVarIntB_steady.forward less ackLength
  have moved := advance_inside less (show ackDataAt ≤ recovered.length by omega)
    (by rw [← ackWordEq]; exact Int32.le_toInt _) (by rw [← ackWordEq]; exact Int32.toInt_lt _)
    ((getUstring_eq_ok.mp read.ack_eq).2.2 ▸ inside)
  rw [← (getUstring_eq_ok.mp read.ack_eq).2.2] at moved
  have textEnd := read.behind_eq less (by omega)
  have order := read.lengthAt_le less
  obtain ⟨_, agree⟩ := take_eq_of_signed inside inside' sameTake (show ackAt ≤ plain.k by omega)
  have transferred := read.of_take readMsgHead_fields (by simp only [intLimit]; omega) (by omega)
    positive (by omega) agree
  obtain ⟨fields, _, _, _, _, message⟩ := transferred.unique read'.toTextRead
  obtain ⟨sender, _⟩ := Prod.mk.inj fields
  simp only [Node.shownMsg, value, value', bind, Except.bind, sender, message]

theorem broadcastCovered_of_forward {recovered : UString}
    (short : recovered.length ≤ 0x40000) (forward : BroadcastForward recovered) :
    Node.BroadcastCovered platform recovered := by
  intro verify berDecode draws draws' uninit uninit' self after after' msg msg' other _ _
    otherShort accepted accepted' sameSigned
  obtain ⟨plain, _, value, _⟩ := acceptBroadcast_eq_ok accepted
  obtain ⟨plain', _, value', _⟩ := acceptBroadcast_eq_ok accepted'
  obtain ⟨lengthAt, textAt, len, read⟩ := readBroadcastPlain_value.mp value
  obtain ⟨_, _, _, read'⟩ := readBroadcastPlain_value.mp value'
  obtain ⟨_, _, length, present, positive⟩ := forward
  cases read.length.symm.trans length
  have less := lt_intLimit short
  obtain ⟨_, sign⟩ := read.sign_eq
  obtain ⟨_, sign'⟩ := read'.sign_eq
  obtain ⟨inside, signed⟩ := signed_take less sign
  obtain ⟨inside', signed'⟩ := signed_take otherShort sign'
  have sameTake : recovered.take plain.k = other.take plain'.k := by
    simp only [Node.signedBroadcast, value, value', bind, Except.bind, signed, signed']
      at sameSigned
    exact Except.ok.inj sameSigned
  obtain ⟨_, agree⟩ := take_eq_of_signed inside inside' sameTake (Nat.le_refl _)
  have transferred := read.of_take readBroadcastHead_fields (by simp only [intLimit]; omega)
    present positive inside agree
  obtain ⟨sender, _, _, _, _, message⟩ := transferred.unique read'.toTextRead
  simp only [Node.shownBroadcast, value, value', bind, Except.bind, sender, message]

/-! ## Texts with a way back -/

/-- A second text with the same fields and the same signed part that shows something
else. -/
theorem not_msgCovered {msg : PacketMsg} {own : Addr} {recovered other : UString}
    {plain plain' : MsgPlain}
    (accepted : self.acceptMsg draws uninit msg own recovered = .ok (true, after))
    (value : readMsgPlain.value recovered 0 = .ok plain)
    (value' : readMsgPlain.value other 0 = .ok plain')
    (short : recovered.length < intLimit) (otherShort : other.length < intLimit)
    (sender : plain'.sender = plain.sender) (ripe : plain'.destRipe = plain.destRipe)
    (k : plain'.k = plain.k) (agree : recovered.take plain.k = other.take plain.k)
    (ack : AckReads plain'.ackData) (differs : plain'.message ≠ plain.message) :
    ¬Node.MsgCovered platform own recovered := by
  intro covered
  obtain ⟨found, address, readFound, ripeFound, check, reads, built, _⟩ := acceptMsg_eq_ok accepted
  cases value.symm.trans readFound
  obtain ⟨⟨point, key⟩, header, signedHeader⟩ := checkSigned_eq_ok check
  obtain ⟨_, _, _, _, _, _, read⟩ := readMsgPlain_value.mp value
  obtain ⟨_, _, _, _, _, _, read'⟩ := readMsgPlain_value.mp value'
  have size := read.ackData_length
  have size' := read'.ackData_length
  obtain ⟨first, firstAccepted⟩ := exists_acceptMsg self draws uninit value ripeFound key
    signedHeader (by omega) reads built
  have key' := key
  have built' := built
  rw [← sender] at key' built'
  obtain ⟨second, secondAccepted⟩ := exists_acceptMsg self draws uninit value'
    (ripe.trans ripeFound) key' signedHeader (by omega) ack built'
  obtain ⟨_, sign⟩ := read.sign_eq
  obtain ⟨_, sign'⟩ := read'.sign_eq
  have signed := (signed_take short sign).2
  have signed' := (signed_take otherShort sign').2
  rw [k, ← agree] at signed'
  have sameSigned : Node.signedMsg recovered = Node.signedMsg other := by
    simp only [Node.signedMsg, value, value', bind, Except.bind, k, signed, signed']
  have shown := covered _ _ _ _ _ _ _ _ _ _ _ other rfl otherShort firstAccepted secondAccepted
    sameSigned
  simp only [Node.shownMsg, value, value', sender, built, bind, Except.bind, pure, Except.pure,
    Except.ok.injEq, Shown.mk.injEq, true_and] at shown
  exact differs shown.symm

theorem not_broadcastCovered {msg : PacketBroadcast} {recovered other : UString}
    {plain plain' : BroadcastPlain}
    (accepted : self.acceptBroadcast draws uninit msg recovered = .ok (true, after))
    (value : readBroadcastPlain.value recovered 0 = .ok plain)
    (value' : readBroadcastPlain.value other 0 = .ok plain')
    (short : recovered.length < intLimit) (otherShort : other.length < intLimit)
    (sender : plain'.sender = plain.sender) (k : plain'.k = plain.k)
    (agree : recovered.take plain.k = other.take plain.k)
    (differs : plain'.message ≠ plain.message) : ¬Node.BroadcastCovered platform recovered := by
  intro covered
  obtain ⟨found, address, readFound, check, built, _⟩ := acceptBroadcast_eq_ok accepted
  cases value.symm.trans readFound
  obtain ⟨⟨point, key⟩, header, signedHeader⟩ := checkSigned_eq_ok check
  obtain ⟨_, _, _, read⟩ := readBroadcastPlain_value.mp value
  obtain ⟨_, _, _, read'⟩ := readBroadcastPlain_value.mp value'
  obtain ⟨first, firstAccepted⟩ := exists_acceptBroadcast self draws uninit value key
    signedHeader built
  have key' := key
  have built' := built
  rw [← sender] at key' built'
  obtain ⟨second, secondAccepted⟩ := exists_acceptBroadcast self draws uninit value' key'
    signedHeader built'
  obtain ⟨_, sign⟩ := read.sign_eq
  obtain ⟨_, sign'⟩ := read'.sign_eq
  have signed := (signed_take short sign).2
  have signed' := (signed_take otherShort sign').2
  rw [k, ← agree] at signed'
  have sameSigned : Node.signedBroadcast recovered = Node.signedBroadcast other := by
    simp only [Node.signedBroadcast, value, value', bind, Except.bind, k, signed, signed']
  have shown := covered _ _ _ _ _ _ _ _ _ _ _ other rfl rfl otherShort firstAccepted
    secondAccepted sameSigned
  simp only [Node.shownBroadcast, value, value', sender, built, bind, Except.bind, pure,
    Except.pure, Except.ok.injEq, Shown.mk.injEq, true_and] at shown
  exact differs shown.symm

/-- Behind any text an acknowledgement can stand whose length leads back to `k`. -/
theorem exists_rewoundAck {front ackData : UString} {sender : Sender} {destRipe message : UString}
    {lengthAt textAt k : Nat} {len : Int} (room : k ≤ front.length) (small : front.length ≤ 2 ^ 20)
    (ackSmall : ackData.length ≤ 2 ^ 20) (ackRoom : 4 ≤ ackData.length)
    (text : TextRead readMsgHead (front ++ (rewind (front.length + 5 - k) ++ ackData))
      (sender, destRipe) lengthAt textAt front.length len message) :
    ∃ sign, readMsgPlain.value (front ++ (rewind (front.length + 5 - k) ++ ackData)) 0 =
      .ok { sender, destRipe, message, ackData, k, sign } := by
  obtain ⟨width, word, wordEq, decodes⟩ := @rewind_spec (front.length + 5 - k) (by omega) (by omega)
  have total : (front ++ (rewind (front.length + 5 - k) ++ ackData)).length =
      front.length + 5 + ackData.length := by
    rw [List.length_append, List.length_append, width]
    omega
  have fits : (front ++ (rewind (front.length + 5 - k) ++ ackData)).length < intLimit := by
    rw [total]
    simp only [intLimit]
    omega
  have ackLength := decodes front ackData fits
  rw [width] at ackLength
  have moved : advance (front.length + 5) (-((front.length + 5 - k : Nat) : Int)) = k := by
    unfold advance
    omega
  have whole := @getUstring_negative _ (front.length + 5) (-((front.length + 5 - k : Nat) : Int))
    fits (by omega) (by omega) (by omega)
  have here : (front ++ (rewind (front.length + 5 - k) ++ ackData)).drop (front.length + 5) =
      ackData := by
    rw [← List.append_assoc]
    exact List.drop_left' (by rw [List.length_append, width])
  rw [here, moved] at whole
  obtain ⟨sign, stop, signRead⟩ := @exists_getVarUstringB _ k fits (by omega)
  exact ⟨sign, readMsgPlain_value.mpr ⟨_, _, _, _, _, _, text, ⟨word, wordEq, ackLength⟩, whole,
    stop, signRead⟩⟩

section Back

variable {msg : PacketMsg} {own : Addr} {recovered : UString} {plain : MsgPlain}
  {lengthAt textAt ackAt ackDataAt : Nat} {len ackLen : Int}

/-- The acknowledgement of an accepted text has been read. -/
theorem MsgRead.ackReads
    (read : MsgRead recovered plain lengthAt textAt ackAt ackDataAt len ackLen)
    (accepted : self.acceptMsg draws uninit msg own recovered = .ok (true, after)) :
    AckReads plain.ackData := by
  have value := readMsgPlain_value.mpr ⟨_, _, _, _, _, _, read⟩
  obtain ⟨_, _, readFound, _, _, reads, _⟩ := acceptMsg_eq_ok accepted
  cases value.symm.trans readFound
  exact reads

/-- A negative length of the text: zeros behind the text are shown as well. -/
theorem not_msgCovered_of_negative
    (accepted : self.acceptMsg draws uninit msg own recovered = .ok (true, after))
    (read : MsgRead recovered plain lengthAt textAt ackAt ackDataAt len ackLen)
    (short : recovered.length ≤ 0x40000) (negative : len < 0) :
    ¬Node.MsgCovered platform own recovered := by
  have less := lt_intLimit short
  have value := readMsgPlain_value.mpr ⟨_, _, _, _, _, _, read⟩
  have reads := read.ackReads accepted
  obtain ⟨stop, sign⟩ := read.sign_eq
  have inside := getVarUstringB_inside less sign
  have ackInside := read.ackData_length
  obtain ⟨ackWord, ackWordEq, ackLength⟩ := read.ackLength_eq
  have ackForward := getVarIntB_steady.forward less ackLength
  have textEnd := read.behind_eq less (by omega)
  have textInside := read.textAt_le
  obtain ⟨n, nLe, padded⟩ := reads.append (by omega)
  let tail : UString := List.replicate n 0 ++ List.replicate 9 0
  have tailLength : tail.length = n + 9 := by simp [tail]
  have fits : (recovered ++ tail).length < intLimit := by
    rw [List.length_append, tailLength]
    simp only [intLimit]
    omega
  have total : (recovered ++ tail).length = recovered.length + (n + 9) := by
    rw [List.length_append, tailLength]
  have text := read.append readMsgHead_fields negative tail fits
  have ackLength' := getVarIntB_keeps less (show ackAt < recovered.length by omega) (by omega)
    ackLength tail
  obtain ⟨sign', stop', signRead⟩ := @exists_getVarUstringB _ plain.k fits (by omega)
  -- the acknowledgement stays as it is or grows by the zeros
  have ack : ∃ ackData, getUstring ackLen (recovered ++ tail) ackDataAt =
      .ok (ackData, plain.k) ∧ AckReads ackData := by
    by_cases positive : 0 ≤ ackLen
    · have kept := (getUstring_extends positive (by
        rw [← ackWordEq]
        exact Int32.toInt_lt _)).keeps less inside read.ack_eq tail
      exact ⟨plain.ackData, kept, reads⟩
    · have low : -2 ^ 31 ≤ ackLen := by
        rw [← ackWordEq]
        exact Int32.le_toInt _
      refine ⟨_, getUstring_negative_append low (by omega) read.ack_eq fits, padded _ ?_⟩
      have size : (plain.ackData ++ tail).length = plain.ackData.length + (n + 9) := by
        rw [List.length_append, tailLength]
      change (plain.ackData ++ tail).length < intLimit
      omega
  obtain ⟨ackData, ackRead, ackReads⟩ := ack
  have value' : readMsgPlain.value (recovered ++ tail) 0 = .ok {
      plain with message := plain.message ++ tail, ackData, sign := sign' } :=
    readMsgPlain_value.mpr ⟨_, _, _, _, _, _, text, ⟨ackWord, ackWordEq, ackLength'⟩, ackRead,
      stop', signRead⟩
  refine not_msgCovered accepted value value' less fits rfl rfl rfl
    (List.take_append_of_le_length inside).symm ackReads ?_
  intro same
  have lengths := congrArg List.length same
  rw [List.length_append, tailLength] at lengths
  omega

/-- Another text can stand in front of the acknowledgement when a length leads back behind
it to the end of the signed part. -/
theorem not_msgCovered_of_rewound
    (accepted : self.acceptMsg draws uninit msg own recovered = .ok (true, after))
    (read : MsgRead recovered plain lengthAt textAt ackAt ackDataAt len ackLen)
    (short : recovered.length ≤ 0x40000) {front message : UString} {size textAt' : Nat}
    {len' : Int} (sizeEq : front.length = size) (room : plain.k ≤ size)
    (sizeLe : size ≤ recovered.length + 1)
    (agree : recovered.take plain.k = front.take plain.k) (differs : message ≠ plain.message)
    (text : TextRead readMsgHead (front ++ (rewind (size + 5 - plain.k) ++ plain.ackData))
      (plain.sender, plain.destRipe) lengthAt textAt' size len' message) :
    ¬Node.MsgCovered platform own recovered := by
  subst sizeEq
  have less := lt_intLimit short
  have value := readMsgPlain_value.mpr ⟨_, _, _, _, _, _, read⟩
  have reads := read.ackReads accepted
  have ackInside := read.ackData_length
  have ackSize := reads.length (by omega)
  obtain ⟨sign', value'⟩ := exists_rewoundAck room (by omega) (by omega) ackSize text
  have width := (@rewind_spec (front.length + 5 - plain.k) (by omega) (by omega)).1
  refine not_msgCovered accepted value value' (by omega) ?_ rfl rfl rfl ?_ reads differs
  · rw [List.length_append, List.length_append, width]
    simp only [intLimit]
    omega
  · rw [List.take_append_of_le_length room]
    exact agree

/-- A length of the acknowledgement that leads back behind the text: the last byte of the
text can be replaced, or an empty text be given a byte. -/
theorem not_msgCovered_of_back
    (accepted : self.acceptMsg draws uninit msg own recovered = .ok (true, after))
    (read : MsgRead recovered plain lengthAt textAt ackAt ackDataAt len ackLen)
    (short : recovered.length ≤ 0x40000) (positive : 0 ≤ len)
    (back : ackLen < -((ackDataAt - ackAt : Nat) : Int)) :
    ¬Node.MsgCovered platform own recovered := by
  have less := lt_intLimit short
  obtain ⟨stop, sign⟩ := read.sign_eq
  have inside := getVarUstringB_inside less sign
  have ackInside := read.ackData_length
  have ackSize := (read.ackReads accepted).length (by omega)
  obtain ⟨ackWord, ackWordEq, ackLength⟩ := read.ackLength_eq
  have ackForward := getVarIntB_steady.forward less ackLength
  obtain ⟨reachable, _, moved⟩ := getUstring_eq_ok.mp read.ack_eq
  have signedEnd := advance_inside less reachable (by rw [← ackWordEq]; exact Int32.le_toInt _)
    (by rw [← ackWordEq]; exact Int32.toInt_lt _) (moved ▸ inside)
  rw [← moved] at signedEnd
  have textEnd := read.behind_eq less (by omega)
  have order := read.lengthAt_le less
  have wide (size : Nat) (room : plain.k ≤ size) (sizeLe : size ≤ recovered.length + 1) :
      (rewind (size + 5 - plain.k) ++ plain.ackData).length = 5 + plain.ackData.length := by
    rw [List.length_append, (@rewind_spec (size + 5 - plain.k) (by omega) (by omega)).1]
  rcases Int.lt_or_eq_of_le positive with some | none
  · obtain ⟨before, byte, changedAt⟩ :=
      read.exists_changed readMsgHead_fields less some (by omega)
    have taken : (recovered.take (ackAt - 1)).length = ackAt - 1 :=
      List.length_take_of_le (by omega)
    have width := wide ackAt (by omega) (by omega)
    obtain ⟨changed, differs, text⟩ := changedAt (rewind (ackAt + 5 - plain.k) ++ plain.ackData) (by
      simp only [List.length_append, taken, List.length_singleton, intLimit] at width ⊢
      omega)
    rw [← List.append_assoc] at text
    refine not_msgCovered_of_rewound accepted read short ?_ (by omega) (by omega) ?_ differs text
    · rw [List.length_append, taken, List.length_singleton]
      omega
    · rw [List.take_append_of_le_length (by omega), List.take_take, Nat.min_eq_left (by omega)]
  · subst none
    have textInside := read.textAt_le
    have taken : (recovered.take (textAt - 1)).length = textAt - 1 :=
      List.length_take_of_le (by omega)
    have width := wide (textAt + 1) (by omega) (by omega)
    obtain ⟨before, empty, text⟩ := read.exists_bumped readMsgHead_fields less (by omega) 0
      (rewind (textAt + 1 + 5 - plain.k) ++ plain.ackData) (by
        simp only [List.length_append, taken, List.length_cons, List.length_nil, intLimit]
          at width ⊢
        omega)
    rw [← List.append_assoc] at text
    refine not_msgCovered_of_rewound accepted read short ?_ (by omega) (by omega) ?_
      (by rw [empty]; simp) text
    · rw [List.length_append, taken]
      simp only [List.length_cons, List.length_nil]
      omega
    · rw [List.take_append_of_le_length (by omega), List.take_take, Nat.min_eq_left (by omega)]

end Back

section Broadcast

variable {msg : PacketBroadcast} {recovered : UString} {plain : BroadcastPlain}
  {lengthAt textAt : Nat} {len : Int}

/-- A broadcast without a length can be given a negative one. -/
theorem not_broadcastCovered_of_missing
    (accepted : self.acceptBroadcast draws uninit msg recovered = .ok (true, after))
    (read : BroadcastRead recovered plain lengthAt textAt len)
    (short : recovered.length ≤ 0x40000) (missing : recovered.length ≤ lengthAt) :
    ¬Node.BroadcastCovered platform recovered := by
  have less := lt_intLimit short
  have value := readBroadcastPlain_value.mpr ⟨_, _, _, read⟩
  obtain ⟨stop, sign⟩ := read.sign_eq
  have inside := getVarUstringB_inside less sign
  obtain ⟨word, wordEq, found⟩ := read.length_eq
  have textInside := read.textAt_le
  have order := read.lengthAt_le less
  rw [getVarIntB_past missing] at found
  cases found
  have here : lengthAt = recovered.length := by omega
  subst here
  have none : len = 0 := wordEq.symm
  have moved := read.behind_eq less inside
  have nothing : plain.message = [] := by
    rw [(getUstring_eq_ok.mp read.text_eq).2.1, List.drop_length, List.take_nil]
  have signedAll : plain.k = recovered.length := by omega
  obtain ⟨n, back, nLe, text⟩ := read.exists_rewound readBroadcastHead_fields short
    (List.replicate 9 1) (by decide)
  have width := (@rewind_spec (n + 5) (by omega) (by omega)).1
  generalize otherEq : recovered ++ (List.replicate n 0 ++ (rewind (n + 5) ++
    List.replicate 9 1)) = other at text
  have total : other.length = recovered.length + (n + 14) := by
    rw [← otherEq]
    simp only [List.length_append, List.length_replicate, width]
  have fits : other.length < intLimit := by
    simp only [intLimit]
    omega
  obtain ⟨sign', stop', signRead⟩ := @exists_getVarUstringB _ recovered.length fits (by omega)
  have value' : readBroadcastPlain.value other 0 = .ok {
      plain with message := List.replicate 9 1, k := recovered.length, sign := sign' } :=
    readBroadcastPlain_value.mpr ⟨_, _, _, text, stop', signRead⟩
  refine not_broadcastCovered accepted value value' less fits rfl signedAll.symm ?_ ?_
  · rw [← otherEq, signedAll, List.take_left, List.take_length]
  · rw [nothing]
    simp

/-- Zeros behind a broadcast with a negative length are shown as well. -/
theorem not_broadcastCovered_of_negative
    (accepted : self.acceptBroadcast draws uninit msg recovered = .ok (true, after))
    (read : BroadcastRead recovered plain lengthAt textAt len)
    (short : recovered.length ≤ 0x40000) (negative : len < 0) :
    ¬Node.BroadcastCovered platform recovered := by
  have less := lt_intLimit short
  have value := readBroadcastPlain_value.mpr ⟨_, _, _, read⟩
  obtain ⟨stop, sign⟩ := read.sign_eq
  have inside := getVarUstringB_inside less sign
  have fits : (recovered ++ List.replicate 9 0).length < intLimit := by
    rw [List.length_append, List.length_replicate]
    simp only [intLimit]
    omega
  have text := read.append readBroadcastHead_fields negative (List.replicate 9 0) fits
  obtain ⟨sign', stop', signRead⟩ := @exists_getVarUstringB _ plain.k fits (by
    rw [List.length_append, List.length_replicate]
    omega)
  have value' : readBroadcastPlain.value (recovered ++ List.replicate 9 0) 0 = .ok {
      plain with message := plain.message ++ List.replicate 9 0, sign := sign' } :=
    readBroadcastPlain_value.mpr ⟨_, _, _, text, stop', signRead⟩
  refine not_broadcastCovered accepted value value' less fits rfl rfl
    (List.take_append_of_le_length inside).symm ?_
  intro same
  have lengths := congrArg List.length same
  rw [List.length_append, List.length_replicate] at lengths
  omega

end Broadcast

theorem broadcastForward_of_covered {msg : PacketBroadcast} {recovered : UString}
    (accepted : self.acceptBroadcast draws uninit msg recovered = .ok (true, after))
    (short : recovered.length ≤ 0x40000) (covered : Node.BroadcastCovered platform recovered) :
    BroadcastForward recovered := by
  obtain ⟨plain, _, value, _⟩ := acceptBroadcast_eq_ok accepted
  obtain ⟨lengthAt, textAt, len, read⟩ := readBroadcastPlain_value.mp value
  refine ⟨lengthAt, len, read.length, ?_, ?_⟩
  · by_contra missing
    exact not_broadcastCovered_of_missing accepted read short (Nat.le_of_not_lt missing) covered
  · by_contra negative
    exact not_broadcastCovered_of_negative accepted read short (Int.not_le.mp negative) covered

theorem msgForward_of_covered {msg : PacketMsg} {own : Addr} {recovered : UString}
    (accepted : self.acceptMsg draws uninit msg own recovered = .ok (true, after))
    (short : recovered.length ≤ 0x40000) (covered : Node.MsgCovered platform own recovered) :
    MsgForward recovered := by
  obtain ⟨plain, _, value, _⟩ := acceptMsg_eq_ok accepted
  obtain ⟨lengthAt, textAt, ackAt, ackDataAt, len, ackLen, read⟩ := readMsgPlain_value.mp value
  have positive : 0 ≤ len := by
    by_contra negative
    exact not_msgCovered_of_negative accepted read short (Int.not_le.mp negative) covered
  refine ⟨len, ackLen, ackDataAt - ackAt, read.lengths, positive, ?_⟩
  by_contra back
  exact not_msgCovered_of_back accepted read short positive (Int.not_le.mp back) covered

/-- What is stored is what is shown, and the signed part of an accepted text determines
it exactly when the lengths in the text do not lead back. -/
theorem shown_determined_iff (platform : Platform) {recovered : UString}
    (short : recovered.length ≤ 0x40000) :
    (∀ (draws : Draws platform) (uninit : Uninit) (self after : Node) (msg : PacketMsg)
      (own : Addr), self.acceptMsg draws uninit msg own recovered = .ok (true, after) →
      (∃ message, Node.shownMsg platform own recovered = .ok message.shown ∧
        after.messages = (self.messages.insert draws.buffer message message.signature).2) ∧
      (Node.MsgCovered platform own recovered ↔ MsgForward recovered)) ∧
    ∀ (draws : Draws platform) (uninit : Uninit) (self after : Node) (msg : PacketBroadcast),
      self.acceptBroadcast draws uninit msg recovered = .ok (true, after) →
      (∃ message, Node.shownBroadcast platform recovered = .ok message.shown ∧
        after.messages = (self.messages.insert draws.buffer message message.signature).2) ∧
      (Node.BroadcastCovered platform recovered ↔ BroadcastForward recovered) := by
  constructor
  · intro draws uninit self after msg own accepted
    obtain ⟨plain, address, value, _, _, _, built, stored⟩ := acceptMsg_eq_ok accepted
    refine ⟨⟨⟨address, own.base.address, plain.message, plain.sign⟩, ?_, stored⟩, ?_, ?_⟩
    · simp only [Node.shownMsg, value, built, bind, Except.bind]
      rfl
    · exact msgForward_of_covered accepted short
    · exact msgCovered_of_forward short
  · intro draws uninit self after msg accepted
    obtain ⟨plain, address, value, _, built, stored⟩ := acceptBroadcast_eq_ok accepted
    refine ⟨⟨⟨address, Node.broadcastRecipient, plain.message, plain.sign⟩, ?_, stored⟩, ?_, ?_⟩
    · simp only [Node.shownBroadcast, value, built, bind, Except.bind]
      rfl
    · exact broadcastForward_of_covered accepted short
    · exact broadcastCovered_of_forward short

/-! ## One signature for two texts -/

/-- The object that carries the broadcasts below, without its tag. -/
def rewoundBase : Object :=
  { Draws.sample.memory with objectType := typeBroadcast, version := 5, stream := 1 }

/-- What the signature of these broadcasts covers of their texts. -/
def rewoundFront : UString := [1, 1, 0, 0, 0, 1] ++ (Platform.samplePoint 3).coordinates

def rewoundSign : UString :=
  Platform.sample.derEncode (Platform.sample.sign 3 0
    (rewoundBase.header ++ (Addr.sampleEntry 1).tag ++ rewoundFront))

/-- The signature stands where the encryption key is read, and the length of the text
leads back to it. -/
def rewoundText (message : UString) : UString :=
  rewoundFront ++ (appendVarUstringB [] rewoundSign ++ (rewind 70 ++ message))

def rewoundSender : Sender where
  version := 1
  stream := 1
  pubSigningKey := (Platform.samplePoint 3).coordinates
  pubEncryptionKey := 64 :: rewoundSign.take 63
  nonce := 1000
  extra := 1000

/-- `hi` and `ho`. -/
theorem rewoundText_read : ∀ message ∈ [[104, 105], [104, 111]],
    readBroadcastPlain.value (rewoundText message) 0 =
        .ok { sender := rewoundSender, message, k := 70, sign := rewoundSign } ∧
      (getUstring (toInt (70 : Nat))).value (rewoundText message) 0 = .ok rewoundFront ∧
      (rewoundText message).length = 142 := by
  decide +kernel

theorem rewoundSender_key : (readPoint Platform.sample).value rewoundSender.pubSigningKey 0 =
      .ok (Platform.samplePoint 3) ∧
    verifySignature Platform.sample (Platform.samplePoint 3) rewoundSign
      (rewoundBase.header ++ (Addr.sampleEntry 1).tag ++ rewoundFront) = .ok true := by
  decide +kernel

theorem rewoundSender_built : ∃ address, buildAddressFromKeys Platform.sample
    rewoundSender.pubSigningKey rewoundSender.pubEncryptionKey rewoundSender.stream
    rewoundSender.version = .ok address := by
  have built : (buildAddressFromKeys Platform.sample rewoundSender.pubSigningKey
      rewoundSender.pubEncryptionKey rewoundSender.stream rewoundSender.version).toOption.isSome =
        true := by
    decide +kernel
  cases found : buildAddressFromKeys Platform.sample rewoundSender.pubSigningKey
      rewoundSender.pubEncryptionKey rewoundSender.stream rewoundSender.version with
  | ok address => exact ⟨address, rfl⟩
  | error failure =>
      rw [found] at built
      cases built

/-- Both texts are accepted in every broadcast with this header and tag. -/
theorem rewoundText_accepted {message : UString} (member : message ∈ [[104, 105], [104, 111]])
    {msg : PacketBroadcast}
    (header : Object.signedHeader.value msg.messagePayload 8 = .ok rewoundBase.header)
    (version : msg.version = 5) (tag : msg.tag = (Addr.sampleEntry 1).tag) :
    ∃ after stored, Node.sampleSubscriber.acceptBroadcast Draws.sample ⟨0, 0, 0, 0⟩ msg
        (rewoundText message) = .ok (true, after) ∧
      after.messages.Stored stored ∧ stored.info = message := by
  obtain ⟨read, text, _⟩ := rewoundText_read message member
  obtain ⟨key, verified⟩ := rewoundSender_key
  obtain ⟨address, built⟩ := rewoundSender_built
  have check : Node.checkSigned Platform.sample msg.messagePayload (Node.signedTag msg)
      (rewoundText message) rewoundSender.pubSigningKey rewoundSign 70 = .ok true := by
    simp only [Node.checkSigned, key, header, text, Node.signedTag, if_pos version, tag, verified,
      bind, Except.bind]
  obtain ⟨after, stored, messages⟩ := exists_storeMessage Draws.sample ⟨0, 0, 0, 0⟩
    Node.sampleSubscriber Node.broadcastRecipient message rewoundSign built
  obtain ⟨entry, inserted, info⟩ := HashTable.exists_mem_insert Node.sampleSubscriber.messages
    Draws.sample.buffer ⟨address, Node.broadcastRecipient, message, rewoundSign⟩ rewoundSign
  rw [← messages] at inserted
  refine ⟨after, _, ?_, ⟨_, entry, inserted, info⟩, rfl⟩
  simp only [Node.acceptBroadcast, read, check, stored, bind, Except.bind, if_true, pure,
    Except.pure]

/-- A broadcast that carries one of the texts to the subscriber. -/
theorem exists_rewoundBroadcast {message : UString}
    (member : message ∈ [[104, 105], [104, 111]]) :
    ∃ msg : PacketBroadcast,
      Object.signedHeader.value msg.messagePayload 8 = .ok rewoundBase.header ∧
      msg.version = 5 ∧ msg.tag = (Addr.sampleEntry 1).tag ∧
      Node.decryptBroadcastWith Platform.sample msg Node.sampleSubscriber.subscriptions =
        some (Addr.sampleEntry 1, rewoundText message) := by
  have consistent := (Addr.sample_loaded 1).consistent
  have full := Platform.sample_fullWidth (beNat (Addr.sampleEntry 1).tagE)
  have tagE32 : (Addr.sampleEntry 1).tagE.length = 32 := consistent.tagE_length
  have tag32 : (Addr.sampleEntry 1).tag.length = 32 := consistent.tag_length
  obtain ⟨encrypted, sealing, opens⟩ := exists_encode Platform.sample_correct full Draws.sample
    (rewoundText message) tagE32
  have size := (encode_length sealing).2
  have textSize := (rewoundText_read message member).2.2
  let base : Object :=
    { rewoundBase with objectPayload := (Addr.sampleEntry 1).tag ++ encrypted }
  have short : base.encodePayload.messagePayload.length < intLimit := by
    have headerSize := base.header_length_le
    have rest : base.objectPayload.length = 32 + encrypted.length := by
      rw [← tag32]
      exact List.length_append
    rw [Object.encodePayload_messagePayload, List.length_append, List.length_append, rest,
      appendInt64_length]
    simp only [intLimit]
    omega
  obtain ⟨stop, header⟩ := Object.signedHeader_encodePayload short
  refine ⟨{ base.encodePayload with tag := (Addr.sampleEntry 1).tag, encrypted },
    Cursor.value_of_ok header, rfl, rfl, ?_⟩
  exact @decryptBroadcastWith_of_tag Platform.sample _ _ _ [] [] rfl rfl (by simp)
    (opens (by simp only [intLimit]; omega))

/-- Two broadcasts with the same header, tag and signed part are stored with different
texts, on a platform whose signature check is the real one of that platform. -/
theorem shown_undetermined_sample :
    Platform.sample.Correct ∧
    ∃ (msg msg' : PacketBroadcast) (recovered other : UString) (after after' : Node)
      (stored stored' : Message),
      Object.signedHeader.value msg.messagePayload 8 =
        Object.signedHeader.value msg'.messagePayload 8 ∧
      msg.version = msg'.version ∧ msg.tag = msg'.tag ∧
      Node.decryptBroadcastWith Platform.sample msg Node.sampleSubscriber.subscriptions =
        some (Addr.sampleEntry 1, recovered) ∧
      Node.decryptBroadcastWith Platform.sample msg' Node.sampleSubscriber.subscriptions =
        some (Addr.sampleEntry 1, other) ∧
      Node.signedBroadcast recovered = Node.signedBroadcast other ∧
      Node.sampleSubscriber.decryptBroadcast Draws.sample ⟨0, 0, 0, 0⟩ msg = .ok (true, after) ∧
      Node.sampleSubscriber.decryptBroadcast Draws.sample ⟨0, 0, 0, 0⟩ msg' =
        .ok (true, after') ∧
      after.messages.Stored stored ∧ after'.messages.Stored stored' ∧
      stored.info ≠ stored'.info := by
  have hi : [104, 105] ∈ [[104, 105], [(104 : UInt8), 111]] := by decide
  have ho : [104, 111] ∈ [[104, 105], [(104 : UInt8), 111]] := by decide
  obtain ⟨msg, header, version, tag, opened⟩ := exists_rewoundBroadcast hi
  obtain ⟨msg', header', version', tag', opened'⟩ := exists_rewoundBroadcast ho
  obtain ⟨after, stored, accepted, isStored, info⟩ := rewoundText_accepted hi header version tag
  obtain ⟨after', stored', accepted', isStored', info'⟩ :=
    rewoundText_accepted ho header' version' tag'
  refine ⟨Platform.sample_correct, msg, msg', _, _, after, after', stored, stored',
    header.trans header'.symm, version.trans version'.symm, tag.trans tag'.symm, opened, opened',
    ?_, ?_, ?_, isStored, isStored', ?_⟩
  · obtain ⟨read, text, _⟩ := rewoundText_read _ hi
    obtain ⟨read', text', _⟩ := rewoundText_read _ ho
    simp only [Node.signedBroadcast, read, read', bind, Except.bind]
    exact text.trans text'.symm
  · simp only [Node.decryptBroadcast, opened, accepted, tryCatchAll_ok]
  · simp only [Node.decryptBroadcast, opened', accepted', tryCatchAll_ok]
  · rw [info, info']
    decide

/-- The signed part of such a text does not determine what it shows. -/
theorem shown_determined_sample :
    ¬Node.BroadcastCovered Platform.sample (rewoundText [104, 105]) := by
  have hi : [104, 105] ∈ [[104, 105], [(104 : UInt8), 111]] := by decide
  obtain ⟨msg, header, version, tag, _⟩ := exists_rewoundBroadcast hi
  obtain ⟨after, _, accepted, _⟩ := rewoundText_accepted hi header version tag
  have short : (rewoundText [104, 105]).length ≤ 0x40000 := by
    rw [(rewoundText_read _ hi).2.2]
    decide
  have exact := ((shown_determined_iff Platform.sample short).2 Draws.sample ⟨0, 0, 0, 0⟩
    Node.sampleSubscriber after msg accepted).2
  intro covered
  obtain ⟨start, message, length, _, positive⟩ := exact.mp covered
  have negative : readBroadcastLength.value (rewoundText [104, 105]) 0 = .ok (135, -70) := by
    decide +kernel
  cases length.symm.trans negative
  exact absurd positive (by decide)

end BitMRC

import BitMRC.Node.State

/-!
# Sending and receiving messages

`sendMessage` and `sendBroadcast` assemble a text, sign it together with the
header of the object that will carry it, and encrypt it.  The two `decryptMsg`
take such an object apart again.  Whatever they throw is caught at their end.
-/

namespace BitMRC

open Foundation UString

/-! ## The text -/

/-- The fields that messages and broadcasts start with. -/
structure Sender where
  version : Int32
  stream : Int32
  pubSigningKey : UString
  pubEncryptionKey : UString
  nonce : Int32
  extra : Int32
  deriving DecidableEq

def readSender : Reader Sender := do
  let version ← getVarIntB
  let stream ← getVarIntB
  let _bitfield ← getInt32
  let pubSigningKey ← getUstring 64
  let pubEncryptionKey ← getUstring 64
  if 3 ≤ version.toInt32 then
    let nonce ← getVarIntB
    let extra ← getVarIntB
    return {
      version := version.toInt32
      stream := stream.toInt32
      pubSigningKey
      pubEncryptionKey
      nonce := nonce.toInt32
      extra := extra.toInt32 }
  else
    return {
      version := version.toInt32
      stream := stream.toInt32
      pubSigningKey
      pubEncryptionKey
      nonce := 1000
      extra := 1000 }

/-- What a decrypted message says; `k` is where the signed text ends. -/
structure MsgPlain where
  sender : Sender
  destRipe : UString
  message : UString
  ackData : UString
  k : Nat
  sign : UString

def readMsgPlain : Reader MsgPlain := do
  let sender ← readSender
  let destRipe ← getUstring 20
  let _messageEncoding ← getVarIntB
  let message ← getVarUstringB
  let ackData ← getVarUstringB
  let k ← Cursor.position
  let sign ← getVarUstringB
  return { sender, destRipe, message, ackData, k, sign }

/-- What a decrypted broadcast says. -/
structure BroadcastPlain where
  sender : Sender
  message : UString
  k : Nat
  sign : UString
  deriving DecidableEq

def readBroadcastPlain : Reader BroadcastPlain := do
  let sender ← readSender
  let _messageEncoding ← getVarIntB
  let message ← getVarUstringB
  let k ← Cursor.position
  let sign ← getVarUstringB
  return { sender, message, k, sign }

/-! ## Sending -/

/-- The fields that both kinds of text start with, for a sender `address`. -/
def senderText (platform : Platform) (address : Addr) : UString :=
  let msg := appendVarIntB [] (varInt address.base.version)
  let msg := appendVarIntB msg (varInt address.base.stream)
  let msg := appendInt32 msg 1
  let msg := msg ++ (platform.cBytes address.pubSigningKey 1 64).toUString
  let msg := msg ++ (platform.cBytes address.pubEncryptionKey 1 64).toUString
  if 3 ≤ address.base.version then
    appendVarIntB (appendVarIntB msg (varInt address.base.nonceTrials))
      (varInt address.base.extraBytes)
  else
    msg

/-- `msg` in `sendMessage`, up to the signature.  The acknowledgement is one byte
long, `so it wont work just testing`. -/
def messageText (platform : Platform) (fromAddr : Addr) (ripe message : UString) : UString :=
  let msg := senderText platform fromAddr ++ ripe
  let msg := appendVarIntB msg 1
  let msg := appendVarIntB msg (UInt64.ofNat message.length)
  let msg := msg ++ message
  let msg := appendVarIntB msg 1
  appendInt8 msg 1

/-- `msg` in `sendBroadcast`, up to the signature. -/
def broadcastText (platform : Platform) (address : Addr) (message : UString) : UString :=
  let msg := senderText platform address
  let msg := appendVarIntB msg 1
  let msg := appendVarIntB msg (UInt64.ofNat message.length)
  msg ++ message

/-- The object `sendMessage` queues when the keys of `toAddr` are known. -/
def msgObject {platform : Platform} (draws : Draws platform) (message : UString)
    (toAddr : PubAddr) (fromAddr : Addr) : Except Exn Object := do
  let packet := {
    draws.object with
    time := draws.expiry
    objectType := typeMsg
    stream := varInt fromAddr.base.stream
    version := 1 }
  let packet := packet.encodePayload
  let header ← Object.signedHeader.value packet.messagePayload 8
  let objectPayload ← sealText draws fromAddr.privSigningKey header
    (messageText platform fromAddr toAddr.ripe message) toAddr.pubEncryptionKey
  return { packet with objectPayload }

/-- The object `sendBroadcast` queues. -/
def broadcastObject {platform : Platform} (draws : Draws platform) (message : UString)
    (address : Addr) : Except Exn Object := do
  let pubE := getPubOfPriv platform address.base.tagE
  let packet := {
    draws.object with
    time := draws.expiry
    objectType := typeBroadcast
    stream := varInt address.base.stream
    version := 5 }
  let packet := packet.encodePayload
  let header ← Object.signedHeader.value packet.messagePayload 8
  let encrypted ← sealText draws address.privSigningKey (header ++ address.base.tag)
    (broadcastText platform address message) pubE
  let packet : PacketBroadcast := { packet with tag := address.base.tag, encrypted }
  return packet.encodeObject.toObject

namespace Node

/-- `sendMessage` to an address whose keys are known. -/
def sendMessageKnown {platform : Platform} (draws : Draws platform) (self : Node)
    (message : UString) (toAddr : PubAddr) (fromAddr : Addr) : Except Exn Node := do
  return self.sendObj (← msgObject draws message toAddr fromAddr)

def sendBroadcast {platform : Platform} (draws : Draws platform) (self : Node)
    (message : UString) (address : Addr) : Except Exn Node := do
  return self.sendObj (← broadcastObject draws message address)

/-! ## Receiving -/

/-- The address book entry and the stored message for an accepted text. -/
def storeMessage {platform : Platform} (draws : Draws platform) (uninit : Uninit) (self : Node)
    (sender : Sender) («to» message sign : UString) : Except Exn Node := do
  let addr ← buildAddressFromKeys platform sender.pubSigningKey sender.pubEncryptionKey
    sender.stream sender.version
  let (_, «from») ← (PubAddr.new uninit).loadAddr platform addr
  let («from») := («from».loadKeys sender.pubSigningKey sender.pubEncryptionKey sender.nonce
    sender.extra).2
  let self := self.addAddr «from»
  let mess : Message := { «from» := addr, «to», info := message, signature := sign }
  let (ret, messages) := self.messages.insert draws.buffer mess sign
  let self := { self with messages }
  -- add to new incoming messages if not already there
  if ret ≠ 0 then
    return { self with newMessages := self.newMessages ++ [mess] }
  else
    return self

/-- The first own address whose key decrypts, with the text. -/
def decryptWith (platform : Platform) (data : UString) : List Addr → Option (Addr × UString)
  | [] => none
  | address :: rest =>
      match decode platform data address.privEncryptionKey with
      | .ok recovered => some (address, recovered)
      | .error _ => decryptWith platform data rest

/-- The signature check on a text whose signed part ends at `k`. -/
def checkSigned (platform : Platform) (payload tag recovered pubSigningKey sign : UString)
    (k : Nat) : Except Exn Bool := do
  let point ← (readPoint platform).value pubSigningKey 0
  let header ← Object.signedHeader.value payload 8
  let text ← (getUstring (toInt k)).value recovered 0
  verifySignature platform point sign (header ++ tag ++ text)

/-- `propagate(ack)`: the acknowledgement is taken for a frame with an object in it. -/
def propagateAck {platform : Platform} (draws : Draws platform) (self : Node)
    (ackData : UString) : Except Exn Node := do
  let ack ← Packet.ofUString ackData
  self.propagate draws (← Object.ofPacket ack)

/-- `decryptMsg(packet_msg)` on a text decrypted at `own`. -/
def acceptMsg {platform : Platform} (draws : Draws platform) (uninit : Uninit) (self : Node)
    (msg : PacketMsg) (own : Addr) (recovered : UString) : Except Exn (Bool × Node) := do
  let plain ← readMsgPlain.value recovered 0
  if plain.destRipe ≠ own.base.ripe then
    -- surreptitious forwarding
    return (false, self)
  else if ← checkSigned platform msg.messagePayload [] recovered plain.sender.pubSigningKey
      plain.sign plain.k then
    let self ← self.propagateAck draws plain.ackData
    tryCatchAll (do
      let self ← self.storeMessage draws uninit plain.sender own.base.address plain.message
        plain.sign
      return (true, self))
      (.ok (false, self))
  else
    return (false, self)

/-- `decryptMsg(packet_msg)`. -/
def decryptMsg {platform : Platform} (draws : Draws platform) (uninit : Uninit) (self : Node)
    (msg : PacketMsg) : Except Exn (Bool × Node) :=
  match decryptWith platform msg.objectPayload self.privAddresses with
  | none => .ok (false, self)
  | some (own, recovered) =>
      tryCatchAll (self.acceptMsg draws uninit msg own recovered) (.ok (false, self))

/-- The subscription that decrypts a broadcast, with the text.  Version 4 tries one
after the other; version 5 goes by the tag and gives up when decryption fails. -/
def decryptBroadcastWith (platform : Platform) (msg : PacketBroadcast) :
    List PubAddr → Option (PubAddr × UString)
  | [] => none
  | subscription :: rest =>
      if msg.version = 4 then
        match decode platform msg.encrypted subscription.tagE with
        | .ok recovered => some (subscription, recovered)
        | .error _ => decryptBroadcastWith platform msg rest
      else if msg.version = 5 then
        if msg.tag = subscription.tag then
          match decode platform msg.encrypted subscription.tagE with
          | .ok recovered => some (subscription, recovered)
          | .error _ => none
        else
          decryptBroadcastWith platform msg rest
      else
        decryptBroadcastWith platform msg rest

/-- `Broadcast`. -/
def broadcastRecipient : UString := [66, 114, 111, 97, 100, 99, 97, 115, 116]

/-- What the signature of a broadcast covers in front of the text, header apart. -/
def signedTag (msg : PacketBroadcast) : UString := if msg.version = 5 then msg.tag else []

/-- `decryptMsg(packet_broadcast)` on a decrypted text. -/
def acceptBroadcast {platform : Platform} (draws : Draws platform) (uninit : Uninit)
    (self : Node) (msg : PacketBroadcast) (recovered : UString) :
    Except Exn (Bool × Node) := do
  let plain ← readBroadcastPlain.value recovered 0
  if ← checkSigned platform msg.messagePayload (signedTag msg) recovered
      plain.sender.pubSigningKey plain.sign plain.k then
    let self ← self.storeMessage draws uninit plain.sender broadcastRecipient plain.message
      plain.sign
    return (true, self)
  else
    return (false, self)

/-- `decryptMsg(packet_broadcast)`. -/
def decryptBroadcast {platform : Platform} (draws : Draws platform) (uninit : Uninit)
    (self : Node) (msg : PacketBroadcast) : Except Exn (Bool × Node) :=
  match decryptBroadcastWith platform msg self.subscriptions with
  | none => .ok (false, self)
  | some (_, recovered) =>
      tryCatchAll (self.acceptBroadcast draws uninit msg recovered) (.ok (false, self))

end Node

end BitMRC

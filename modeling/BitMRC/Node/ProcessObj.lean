import BitMRC.Node.Messages

/-!
# Analysing received objects

`processObj` shares a valid object, announces it and hands it to the handler of
its type.  `getPubKey` looks for the keys of an address among the shared objects
and asks the network for them.
-/

namespace BitMRC

open Foundation UString

namespace Node

/-! ## The handlers -/

/-- Four days. -/
def requestInterval : Int64 := 60 * 60 * 24 * 4

/-- The loop over the own addresses: the ones with the requested tag are published
again, unless they were recently. -/
def publishKeys {platform : Platform} (draws : Draws platform) (tag : UString) :
    List Addr → Except Exn (List Addr × List Object)
  | [] => .ok ([], [])
  | address :: rest => do
      if tag = address.base.tag ∧
          address.base.lastPubKeyRequest + requestInterval < draws.now then
        let (address, pubkey) ← address.encodePubKey draws
        let (rest, sent) ← publishKeys draws tag rest
        return (address :: rest, queued pubkey.toObject :: sent)
      else
        let (rest, sent) ← publishKeys draws tag rest
        return (address :: rest, sent)

/-- The handler of `type_getpubkey`. -/
def handleGetpubkey {platform : Platform} (draws : Draws platform) (self : Node)
    (getpubkey : PacketGetpubkey) : Except Exn Node := do
  let (privAddresses, sent) ← publishKeys draws getpubkey.tag self.privAddresses
  return { self with privAddresses, objects := self.objects ++ sent }

/-- An entry tries to take the keys, and is stored if they are valid. -/
def takeKey {platform : Platform} (draws : Draws platform) (pubkey : PacketPubkey)
    (address : PubAddr) : Except Exn PubAddr := do
  let (valid, address) ← address.decodeFromObj platform pubkey
  if valid then
    let _ ← address.store platform (draws.storing address)
    return address
  else
    return address

/-- The loop over the address book: the entries that wait for keys with this tag try
to take them. -/
def takeKeys {platform : Platform} (draws : Draws platform) (pubkey : PacketPubkey) :
    List PubAddr → Except Exn (List PubAddr)
  | [] => .ok []
  | address :: rest => do
      if address.waitingPubKey ∧ pubkey.tag = address.tag then
        let address ← takeKey draws pubkey address
        return address :: (← takeKeys draws pubkey rest)
      else
        return address :: (← takeKeys draws pubkey rest)

/-- The handler of `type_pubkey`. -/
def handlePubkey {platform : Platform} (draws : Draws platform) (self : Node)
    (pubkey : PacketPubkey) : Except Exn Node := do
  return { self with pubAddresses := ← takeKeys draws pubkey self.pubAddresses }

/-- The part of `processObj` that depends on the type. -/
def handleObj {platform : Platform} (draws : Draws platform) (uninit : Uninit) (self : Node)
    (obj : Object) : Except Exn Node :=
  if obj.objectType = typeGetpubkey then
    self.handleGetpubkey draws (PacketGetpubkey.ofObject obj)
  else if obj.objectType = typePubkey then do
    self.handlePubkey draws (← PacketPubkey.ofObject obj)
  else if obj.objectType = typeMsg then do
    return (← self.decryptMsg draws uninit (PacketMsg.ofObject obj)).2
  else if obj.objectType = typeBroadcast then do
    return (← self.decryptBroadcast draws uninit (← PacketBroadcast.ofObject obj)).2
  else
    .ok self

/-- `processObj`. -/
def processObj {platform : Platform} (draws : Draws platform) (uninit : Uninit) (self : Node)
    (obj : Object) : Except Exn Node := do
  if ← validateObj platform draws.now obj then
    let (present, self) := self.share platform draws.buffer obj.messagePayload
    if present = 2 then
      -- exit because this object is already analized
      return self
    else
      (self.pushInv platform obj.messagePayload).handleObj draws uninit obj
  else
    return self

/-! ## Asking for keys -/

/-- The walk over the address book: `none` when the keys are known; otherwise
whether an entry waits for them, and the book with the time noted in that entry. -/
def requestAgain (now : Int64) (address : PubAddr) :
    List PubAddr → Option (Bool × List PubAddr)
  | [] => some (false, [])
  | entry :: rest =>
      if entry.version = address.version ∧
          (if 4 ≤ address.version then entry.tag = address.tag
            else entry.ripe = address.ripe) then
        if entry.waitingPubKey then
          some (true, { entry with lastPubKeyRequest := now } :: rest)
        else
          none
      else
        (requestAgain now address rest).map fun found => (found.1, entry :: found.2)

/-- The walk over the shared objects: the address with what the first pubkey object
with its tag gives it. -/
def searchShared {platform : Platform} (draws : Draws platform) (address : PubAddr) :
    List (LinkedNode UString) → Except Exn (Option PubAddr)
  | [] => .ok none
  | cur :: rest => do
      let obj ← Object.decodeData { draws.object with messagePayload := cur.info }.toPacket
      if obj.objectType = typePubkey then
        let pubkey ← PacketPubkey.ofObject obj
        if pubkey.tag = address.tag then
          return some (← address.decodeFromObj platform pubkey).2
        else
          searchShared draws address rest
      else
        searchShared draws address rest

/-- The request that `getPubKey` sends. -/
def getpubkeyObject {platform : Platform} (draws : Draws platform) (address : PubAddr) :
    PacketGetpubkey :=
  let packet : PacketGetpubkey := {
    draws.object with
    tag := address.tag
    objectType := typeGetpubkey
    version := varInt address.version
    stream := varInt address.stream }
  { packet.encodeObject with time := draws.expiry }

/-- `getPubKey`. -/
def getPubKey {platform : Platform} (draws : Draws platform) (self : Node)
    (address : PubAddr) : Except Exn Node :=
  match requestAgain draws.now address self.pubAddresses with
  -- we already have it
  | none => .ok self
  | some (true, pubAddresses) =>
      .ok ({ self with pubAddresses }.sendObj (getpubkeyObject draws address).toObject)
  | some (false, _) => do
      match ← searchShared draws address self.sharedObj.toList with
      | some address => return self.addAddr address
      | none =>
          let address := { address with lastPubKeyRequest := draws.now }
          return (self.addAddr address).sendObj (getpubkeyObject draws address).toObject

/-- How far a call of `sendMessage` comes by itself. -/
inductive SendOutcome where
  /-- There is no target in the address book, and the message is given up. -/
  | dropped (self : Node)
  /-- The call sleeps until some other thread has found the keys of `target`. -/
  | waiting (self : Node) (target : PubAddr)
  | sent (self : Node)

/-- `sendMessage`. -/
def sendMessage {platform : Platform} (draws : Draws platform) (self : Node)
    (message : UString) (toAddr : PubAddr) (fromAddr : Addr) : Except Exn SendOutcome :=
  if toAddr.waitingPubKey then do
    let self ← self.getPubKey draws toAddr
    -- the address in our pool, as `toAddr` is only a copy
    match self.pubAddresses.find? (·.same toAddr) with
    | none => return .dropped self
    | some target =>
        if target.waitingPubKey then
          return .waiting self target
        else
          return .sent (← self.sendMessageKnown draws message target fromAddr)
  else do
    return .sent (← self.sendMessageKnown draws message toAddr fromAddr)

end Node

end BitMRC

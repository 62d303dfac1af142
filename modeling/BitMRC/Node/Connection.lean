import BitMRC.Node.ProcessObj
import BitMRC.Wire.Frame

/-!
# A connection to a peer

`NodeConnection::Listener` receives one packet after the other and hands each to the
handler of its command.  Handlers send to the peer directly, put packets into the
queue of the connection, and work on the node.
-/

namespace BitMRC

open Foundation UString

variable {platform : Platform}

/-- The members of `NodeConnection` that the handlers use, and what was sent. -/
structure Connection where
  version : Int32
  state : Int32
  packets : List Packet
  sent : UString
  deriving DecidableEq

namespace Connection

/-- `packet.sendData(this->Socket)`. -/
def send (self : Connection) (packet : Packet) : Except Exn Connection := do
  let bytes ← packet.sendData
  return { self with sent := self.sent ++ bytes }

/-- One packet after the other. -/
def sendAll (self : Connection) (packets : List Packet) : Except Exn Connection :=
  packets.foldlM send self

/-- The last packet is sent behind the others. -/
theorem sendAll_concat (self : Connection) (packets : List Packet) (packet : Packet) :
    self.sendAll (packets ++ [packet]) = self.sendAll packets >>= fun conn => conn.send packet := by
  rw [sendAll, List.foldlM_append, ← sendAll]
  congr 1
  funext conn
  rw [List.foldlM_cons]
  cases conn.send packet <;> rfl

end Connection

namespace Node

/-! ## `verack` -/

/-- The tags of all shared objects: the first 32 bytes of each hash. -/
def inventory (platform : Platform) (self : Node) : List (Block 32) :=
  self.sharedObj.toList.map fun cur => platform.cBytes cur.hash 0 32

/-- The inner loop: the tags from `i` on, and the `i` it ends with. -/
def fillInv (inventory : List (Block 32)) (i : Nat) : List (Block 32) × Nat :=
  if inside : i < 50000 ∧ i < inventory.length then
    let (tags, last) := fillInv inventory (i + 1)
    (inventory[i] :: tags, last)
  else
    ([], i)
termination_by inventory.length - i

/-- The packet that carries some tags. -/
def invPacket (draws : Draws platform) (tags : List (Block 32)) : Packet :=
  setChecksumLenghtMagic platform (PacketInv.encodeData ⟨draws.object.toPacket, tags⟩).toPacket

/-- An `addr` packet without an address. -/
def emptyAddr (draws : Draws platform) : Packet :=
  setChecksumLenghtMagic platform (PacketAddr.encodeData ⟨draws.object.toPacket, []⟩).toPacket

/-- The outer loop, which ends when `i` is the number of tags. -/
def sendInventory (draws : Draws platform) (inventory : List (Block 32)) :
    Nat → Nat → Connection → Except Exn (Option Connection)
  | 0, _, _ => .ok none
  | fuel + 1, i, conn => do
      let (tags, i) := fillInv inventory i
      let conn ← conn.send (invPacket draws tags)
      if i = inventory.length then
        return some conn
      else
        sendInventory draws inventory fuel i conn

/-- The acknowledgement is sent back, then no addresses, then all tags. -/
def handleVerack (draws : Draws platform) (fuel : Nat) (self : Node) (conn : Connection)
    (packet : Packet) : Except Exn (Option Connection) := do
  let conn ← conn.send (PacketVerack.ofPacket packet).toPacket
  let conn ← conn.send (emptyAddr draws)
  match ← sendInventory draws (self.inventory platform) fuel 0 conn with
  | none => return none
  | some conn => return some { conn with state := 2 }

/-! ## `version` and `addr` -/

def handleVersion (memory : PacketVersion) (conn : Connection) (packet : Packet) :
    Except Exn Connection := do
  let version ← PacketVersion.ofPacket memory packet
  return { conn with version := version.version }

/-- `%i` of a number that is not negative. -/
def decimal (value : Nat) : UString :=
  (Nat.toDigits 10 value).map fun digit => UInt8.ofNat digit.toNat

/-- An IPv4 address inside an IPv6 one becomes a new node. -/
def connectAddress (self : Node) (address : NetworkAddress) : Node :=
  let part := fun index => (address.ipv6_4.getD index 0).toNat
  if part 11 = 0xff ∧ part 10 = 0xff then
    let ip := decimal (part 12) ++ 46 :: (decimal (part 13) ++ 46 ::
      (decimal (part 14) ++ 46 :: decimal (part 15)))
    { self with nodes := self.nodes ++ [(ip, decimal address.port.toNat)] }
  else
    self

/-- Only the list of nodes changes. -/
theorem connectAddress_eq (self : Node) (address : NetworkAddress) :
    ∃ nodes, self.connectAddress address = { self with nodes } := by
  rw [connectAddress]
  split
  next => exact ⟨_, rfl⟩
  next => exact ⟨self.nodes, rfl⟩

/-- The packet is passed on before it is decoded. -/
def handleAddr (platform : Platform) (self : Node) (packet : Packet) : Except Exn Node := do
  let self := self.send platform packet
  let addr ← PacketAddr.ofPacket packet
  return addr.addrList.foldl connectAddress self

/-! ## `inv`, `getdata` and `object` -/

/-- The tags that no shared object has are asked for. -/
def handleInv (draws : Draws platform) (self : Node) (conn : Connection) (packet : Packet) :
    Except Exn Connection := do
  let inv ← PacketInv.ofPacket packet
  let needed := inv.inventory.filter fun tag =>
    !self.sharedObj.present draws.buffer tag.toUString
  if needed = [] then
    return conn
  else
    let getdata : PacketGetdata := ⟨draws.object.toPacket, needed⟩
    return {
      conn with
      packets := conn.packets ++ [setChecksumLenghtMagic platform getdata.encodeData.toPacket] }

/-- The packet that carries a shared object. -/
def objectPacket (draws : Draws platform) (objPayload : UString) : Packet :=
  setChecksumLenghtMagic platform {
    draws.object.toPacket with
    command := objectCommand
    messagePayload := objPayload }

/-- The shared objects that are asked for go into the queue. -/
def handleGetdata (draws : Draws platform) (self : Node) (conn : Connection) (packet : Packet) :
    Except Exn Connection := do
  let getdata ← PacketGetdata.ofPacket packet
  let answers := getdata.inventory.filterMap fun tag =>
    let objPayload := self.sharedObj.searchByHash [] draws.buffer tag.toUString
    if objPayload = [] then none else some (objectPacket draws objPayload)
  return { conn with packets := conn.packets ++ answers }

/-- `processObj` takes an `object`. -/
def handleObject (draws : Draws platform) (uninit : Uninit) (self : Node) (packet : Packet) :
    Except Exn Node := do
  let obj ← Object.ofPacket packet
  self.processObj draws uninit obj

/-! ## The listener -/

/-- One round of `Listener` behind `getCommand`, by the command; `none` while the handler
is still running. -/
def handlePacket (draws : Draws platform) (uninit : Uninit) (memory : PacketVersion)
    (fuel : Nat) (self : Node) (conn : Connection) (packet : Packet) :
    Except Exn (Option (Node × Connection)) :=
  let command := cStr packet.command.toUString
  if command = pongName then do
    -- just a keep alive
    return some (self, ← conn.send packet)
  else if command = versionName then do
    return some (self, ← handleVersion memory conn packet)
  else if command = verackName then do
    return (← self.handleVerack draws fuel conn packet).map fun conn => (self, conn)
  else if command = addrName then do
    return some (← self.handleAddr platform packet, conn)
  else if command = invName then do
    return some (self, ← self.handleInv draws conn packet)
  else if command = getdataName then do
    return some (self, ← self.handleGetdata draws conn packet)
  else if command = objectName then do
    return some (← self.handleObject draws uninit packet, conn)
  else
    .ok (some (self, conn))

end Node

end BitMRC

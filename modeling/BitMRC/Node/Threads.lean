import BitMRC.Foundation.Conservation
import BitMRC.Node.ContentAddressing
import BitMRC.Node.Reports
import BitMRC.Wire.Version

/-!
# The threads of a running node

`start` runs a thread that gathers announcements and one that hands packets to all
connections.  Every connection adds two: `Listener` takes what the peer sends, and
`Sender` empties the queue of the connection.  One step is what a thread does between two
accesses to what it shares with others, and a run interleaves such steps in any order.  Only the
handling of an object behind its announcement and the operations of the user are one step each.

`start` sets `running` when it has started the threads, so a loop that reads it before is left
at once.
-/

namespace BitMRC

open Foundation UString

variable {platform : Platform}

/-! ## Calls of `send` -/

namespace Packet

/-- `sendInt32`: one `send` for each byte. -/
def int32Calls (i : Int32) : List UString := (SocketUString.sendInt32 [] i).map fun byte => [byte]

/-- `sendUstring(str, len)`, whose loop does not start for a length of 0. -/
def ustringCalls (str : UString) (len : Int) : Except Exn (List UString) := do
  let part ← SocketUString.sendUstring [] str len
  return if part = [] then [] else [part]

/-- `sendData`, one `send` after the other. -/
def sendCalls (packet : Packet) : Except Exn (List UString) := do
  let tmp := cStr packet.command.toUString
  let tmp := tmp ++ List.replicate (12 - tmp.length) 0
  let command ← ustringCalls tmp 12
  let payload ← ustringCalls packet.messagePayload packet.length.toInt32.toInt
  return int32Calls packet.magic.toInt32 ++ command ++ int32Calls packet.length.toInt32 ++
    packet.checksum.toUString.map (fun byte => [byte]) ++ payload

theorem int32Calls_flatten (i : Int32) (out : UString) :
    out ++ (int32Calls i).flatten = SocketUString.sendInt32 out i := by
  simp [int32Calls, SocketUString.sendInt32, SocketUString.sendByte]

theorem ustringCalls_flatten (out str : UString) (len : Int) :
    (ustringCalls str len).map (fun calls => out ++ calls.flatten) =
      SocketUString.sendUstring out str len := by
  unfold ustringCalls SocketUString.sendUstring
  split
  next => rfl
  next =>
    simp only [List.nil_append, bind, Except.bind, pure, Except.pure, Except.map]
    split
    next empty => rw [empty, List.flatten_nil]
    next => rw [List.flatten_cons, List.flatten_nil, List.append_nil]

/-- The calls send what `sendData` sends. -/
theorem sendData_eq_sendCalls (packet : Packet) :
    packet.sendData = packet.sendCalls.map List.flatten := by
  unfold sendData sendCalls
  simp only [← ustringCalls_flatten]
  cases ustringCalls (cStr packet.command.toUString ++
      List.replicate (12 - (cStr packet.command.toUString).length) 0) 12 with
  | error failure => rfl
  | ok command =>
      cases ustringCalls packet.messagePayload packet.length.toInt32.toInt with
      | error failure => rfl
      | ok payload =>
          have bytes (out : UString) (block : UString) :
              block.foldl SocketUString.sendByte out = out ++ block :=
            SocketUString.foldl_sendByte out block
          have pieces (block : UString) : (block.map fun byte => [byte]).flatten = block := by
            induction block with
            | nil => rfl
            | cons byte rest ih => rw [List.map_cons, List.flatten_cons, ih]; rfl
          simp [Except.map, bind, Except.bind, pure, Except.pure, bytes, pieces,
            ← int32Calls_flatten, List.append_assoc]

/-- Some peer has sent this packet. -/
def Received (packet : Packet) : Prop :=
  ∃ (ending : Ending) (received : UString) (start stop : Nat),
    getCommand ending received start = .ok (packet, stop)

/-- The tags in an `inv` or a `getdata`; none in a packet of another name. -/
def tagsOf (name : UString) (packet : Packet) : List (Block 32) :=
  if cStr packet.command.toUString = name then
    match readInventory.value packet.messagePayload 0 with
    | .ok inventory => inventory
    | .error _ => []
  else
    []

end Packet

/-! ## Connections with their threads -/

/-- What `Connect` sends first, without the checksum; the address and the port are what
`sscanf` makes of the strings. -/
def PacketVersion.greeting (memory : PacketVersion) (now : Int64) (ip : Block 4) (port : UInt16) :
    Except Exn PacketVersion :=
  let mapped := List.replicate 10 (0 : UInt8) ++ [0xff, 0xff]
  PacketVersion.encodeData {
    memory with
    magic := Node.magic
    addrRecv := {
      memory.addrRecv with
      services := nodeNetwork.toUInt64, ipv6_4 := mapped ++ ip.toUString, port }
    addrFrom := {
      memory.addrFrom with
      services := nodeNetwork.toUInt64, ipv6_4 := mapped ++ [0x7f, 0, 0, 1], port }
    nonce := (-5399599167942985965 : Int64).toUInt64
    userAgent := []
    streamNumbers := [1] } now

/-- An IPv4 address inside an IPv6 one. -/
def NetworkAddress.Mapped (address : NetworkAddress) : Prop :=
  (address.ipv6_4.getD 11 0).toNat = 0xff ∧ (address.ipv6_4.getD 10 0).toNat = 0xff

instance (address : NetworkAddress) : Decidable address.Mapped :=
  inferInstanceAs (Decidable (_ ∧ _))

/-- What the first thread of a connection is at. -/
inductive ListenerPhase where
  | resolving
  | connecting
  /-- In `getCommand`. -/
  | receiving
  /-- In `sendData`, with what comes behind it. -/
  | writing (calls : List UString) (next : ListenerPhase)
  /-- In front of the loop over the shared objects. -/
  | collecting
  /-- In front of the tags from `i` on. -/
  | telling (inventory : List (Block 32)) (i : Nat)
  /-- Behind the last tag. -/
  | accepting
  | checking (offered needed : List (Block 32))
  | answering (asked : List (Block 32))
  | introducing (addresses : List NetworkAddress)
  /-- In `processObj`, as far as the listener of the system says. -/
  | analysing
  | ended

inductive SenderPhase where
  | off
  /-- Asleep or in front of the loop. -/
  | polling
  /-- The state was 2. -/
  | popping
  | sending (calls : List UString)

structure Peer where
  conn : Connection
  listener : ListenerPhase
  sender : SenderPhase

/-- `new NodeConnection`, whose version is not set. -/
def Peer.new (version : Int32) : Peer where
  conn := ⟨version, 0, [], []⟩
  listener := .resolving
  sender := .off

namespace Peer

/-- What `Sender` does. -/
inductive SenderAct where
  | poll
  | pop (packet : Packet)
  | write (call : UString)
  | done
  | fail

/-- What `Listener` does; `handle` names the tags that were announced. -/
inductive ListenerAct where
  | resolve
  | connect (packet : Packet)
  | write (call : UString)
  | done
  | fail
  | receive (packet : Packet)
  | collect
  | tell (tags : List (Block 32))
  | accept
  | check (tag : Block 32) (present : Bool)
  | request (needed : List (Block 32))
  | answer (tag : Block 32) (objPayload : UString)
  | answered
  | introduce (address : NetworkAddress)
  | introduced
  | leave (obj : Object)
  | announce (obj : Object)
  | handle (obj : Object) (tags : List (Block 32))

/-- `Close`. -/
def close (self : Peer) : Connection := { self.conn with state := 0 }

/-- `Packets.push`. -/
def push (self : Peer) (packets : List Packet) : Connection :=
  { self.conn with packets := self.conn.packets ++ packets }

/-- One `send`. -/
def wrote (self : Peer) (call : UString) : Connection :=
  { self.conn with sent := self.conn.sent ++ call }

inductive Send : Peer → SenderAct → Peer → Prop
  | poll {self : Peer} (asleep : self.sender = .polling) (accepted : self.conn.state = 2) :
      Send self .poll { self with sender := .popping }
  | stop {self : Peer} (asleep : self.sender = .polling) (closed : self.conn.state = 0) :
      Send self .fail { self with sender := .off }
  | pop {self : Peer} {packet : Packet} {rest : List Packet} {calls : List UString}
      (waiting : self.sender = .popping) (queued : self.conn.packets = packet :: rest)
      (sends : packet.sendCalls = .ok calls) :
      Send self (.pop packet) {
        self with conn := { self.conn with packets := rest }, sender := .sending calls }
  | write {self : Peer} {call : UString} {rest : List UString}
      (writing : self.sender = .sending (call :: rest)) :
      Send self (.write call) { self with conn := self.wrote call, sender := .sending rest }
  | done {self : Peer} (writing : self.sender = .sending []) :
      Send self .done { self with sender := .polling }
  /-- `send` failed. -/
  | fail {self : Peer} {calls : List UString} (writing : self.sender = .sending calls) :
      Send self .fail { self with conn := self.close, sender := .off }

/-- Steps of the thread of `Connect` and `Listener` of connection `k`, which works on the
system; the last argument lists the connections that it starts. -/
inductive Listen (platform : Platform) (k : Nat) :
    System → Peer → ListenerAct → System → Peer → List Peer → Prop
  | resolve {sys : System} {self : Peer} (phase : self.listener = .resolving) :
      Listen platform k sys self .resolve sys
        { self with conn := { self.conn with state := 3 }, listener := .connecting } []
  /-- The version is sent, and the other thread starts. -/
  | connect {sys : System} {self : Peer} {memory version : PacketVersion} {now : Int64}
      {ip : Block 4} {port : UInt16} {calls : List UString} (phase : self.listener = .connecting)
      (greeting : PacketVersion.greeting memory now ip port = .ok version)
      (sends : (Node.setChecksumLenghtMagic platform version.toPacket).sendCalls = .ok calls) :
      Listen platform k sys self (.connect (Node.setChecksumLenghtMagic platform version.toPacket))
        sys {
          conn := { self.conn with state := 1 }
          listener := .writing calls .receiving
          sender := .polling } []
  | unreachable {sys : System} {self : Peer} (phase : self.listener = .connecting) :
      Listen platform k sys self .fail sys { self with conn := self.close, listener := .ended } []
  | write {sys : System} {self : Peer} {call : UString} {rest : List UString}
      {next : ListenerPhase} (phase : self.listener = .writing (call :: rest) next) :
      Listen platform k sys self (.write call) sys
        { self with conn := self.wrote call, listener := .writing rest next } []
  | done {sys : System} {self : Peer} {next : ListenerPhase}
      (phase : self.listener = .writing [] next) :
      Listen platform k sys self .done sys { self with listener := next } []
  /-- `send` or `recv` failed. -/
  | fail {sys : System} {self : Peer}
      (phase : self.listener = .receiving ∨ ∃ calls next, self.listener = .writing calls next) :
      Listen platform k sys self .fail sys { self with conn := self.close, listener := .ended } []
  | pong {sys : System} {self : Peer} {packet : Packet} {calls : List UString}
      (phase : self.listener = .receiving) (received : packet.Received)
      (name : cStr packet.command.toUString = pongName) (sends : packet.sendCalls = .ok calls) :
      Listen platform k sys self (.receive packet) sys
        { self with listener := .writing calls .receiving } []
  | version {sys : System} {self : Peer} {packet : Packet} {memory version : PacketVersion}
      (phase : self.listener = .receiving) (received : packet.Received)
      (name : cStr packet.command.toUString = versionName)
      (decoded : PacketVersion.ofPacket memory packet = .ok version) :
      Listen platform k sys self (.receive packet) sys
        { self with conn := { self.conn with version := version.version } } []
  /-- The acknowledgement and no addresses are sent before the shared objects are listed. -/
  | verack {sys : System} {self : Peer} {draws : Draws platform} {packet : Packet}
      {calls more : List UString} (phase : self.listener = .receiving) (received : packet.Received)
      (name : cStr packet.command.toUString = verackName)
      (sends : (PacketVerack.ofPacket packet).toPacket.sendCalls = .ok calls)
      (sendsAddr : (Node.emptyAddr draws).sendCalls = .ok more) :
      Listen platform k sys self (.receive packet) sys
        { self with listener := .writing calls (.writing more .collecting) } []
  | collect {sys : System} {self : Peer} (phase : self.listener = .collecting) :
      Listen platform k sys self .collect sys
        { self with listener := .telling (sys.node.inventory platform) 0 } []
  | tell {sys : System} {self : Peer} {draws : Draws platform} {inventory : List (Block 32)}
      {i : Nat} {calls : List UString} (phase : self.listener = .telling inventory i)
      (sends : (Node.invPacket draws (Node.fillInv inventory i).1).sendCalls = .ok calls) :
      Listen platform k sys self (.tell (Node.fillInv inventory i).1) sys {
        self with
        listener := .writing calls
          (if (Node.fillInv inventory i).2 = inventory.length then .accepting
            else .telling inventory (Node.fillInv inventory i).2) } []
  | accept {sys : System} {self : Peer} (phase : self.listener = .accepting) :
      Listen platform k sys self .accept sys
        { self with conn := { self.conn with state := 2 }, listener := .receiving } []
  | inv {sys : System} {self : Peer} {packet : Packet} {inv : PacketInv}
      (phase : self.listener = .receiving) (received : packet.Received)
      (name : cStr packet.command.toUString = invName)
      (decoded : PacketInv.ofPacket packet = .ok inv) :
      Listen platform k sys self (.receive packet) sys
        { self with listener := .checking inv.inventory [] } []
  | check {sys : System} {self : Peer} {draws : Draws platform} {tag : Block 32}
      {offered needed : List (Block 32)}
      (phase : self.listener = .checking (tag :: offered) needed) :
      Listen platform k sys self
        (.check tag (sys.node.sharedObj.present draws.buffer tag.toUString)) sys {
        self with
        listener := .checking offered
          (if sys.node.sharedObj.present draws.buffer tag.toUString then needed
            else needed ++ [tag]) } []
  | request {sys : System} {self : Peer} {draws : Draws platform} {needed : List (Block 32)}
      (phase : self.listener = .checking [] needed) :
      Listen platform k sys self (.request needed) sys {
        self with
        conn := self.push (if needed = [] then [] else [Node.setChecksumLenghtMagic platform
          (PacketGetdata.encodeData ⟨draws.object.toPacket, needed⟩).toPacket])
        listener := .receiving } []
  | getdata {sys : System} {self : Peer} {packet : Packet} {getdata : PacketGetdata}
      (phase : self.listener = .receiving) (received : packet.Received)
      (name : cStr packet.command.toUString = getdataName)
      (decoded : PacketGetdata.ofPacket packet = .ok getdata) :
      Listen platform k sys self (.receive packet) sys
        { self with listener := .answering getdata.inventory } []
  | answer {sys : System} {self : Peer} {draws : Draws platform} {tag : Block 32}
      {asked : List (Block 32)} {objPayload : UString}
      (phase : self.listener = .answering (tag :: asked))
      (found : sys.node.sharedObj.searchByHash [] draws.buffer tag.toUString = objPayload) :
      Listen platform k sys self (.answer tag objPayload) sys {
        self with
        conn := self.push (if objPayload = [] then [] else [Node.objectPacket draws objPayload])
        listener := .answering asked } []
  | answered {sys : System} {self : Peer} (phase : self.listener = .answering []) :
      Listen platform k sys self .answered sys { self with listener := .receiving } []
  /-- The packet is passed on as it is. -/
  | addr {sys : System} {self : Peer} {packet : Packet} {addr : PacketAddr}
      (phase : self.listener = .receiving) (received : packet.Received)
      (name : cStr packet.command.toUString = addrName)
      (decoded : PacketAddr.ofPacket packet = .ok addr) :
      Listen platform k sys self (.receive packet)
        { sys with node := sys.node.send platform packet }
        { self with listener := .introducing addr.addrList } []
  | introduce {sys : System} {self : Peer} {version : Int32} {address : NetworkAddress}
      {addresses : List NetworkAddress}
      (phase : self.listener = .introducing (address :: addresses)) :
      Listen platform k sys self (.introduce address)
        { sys with node := sys.node.connectAddress address }
        { self with listener := .introducing addresses }
        (if address.Mapped then [Peer.new version] else [])
  | introduced {sys : System} {self : Peer} (phase : self.listener = .introducing []) :
      Listen platform k sys self .introduced sys { self with listener := .receiving } []
  /-- A valid object is inserted. -/
  | object {sys : System} {self : Peer} {draws : Draws platform} {packet : Packet} {obj : Object}
      (phase : self.listener = .receiving) (received : packet.Received)
      (name : cStr packet.command.toUString = objectName)
      (decoded : Object.ofPacket packet = .ok obj)
      (valid : Node.validateObj platform draws.now obj = .ok true)
      (free : sys.listeners k = .idle) :
      Listen platform k sys self (.receive packet)
        (sys.proceed k
          (.inserted (sys.node.share platform draws.buffer obj.messagePayload).1 obj)
          (sys.node.share platform draws.buffer obj.messagePayload).2)
        { self with listener := .analysing } []
  | refuse {sys : System} {self : Peer} {draws : Draws platform} {packet : Packet} {obj : Object}
      (phase : self.listener = .receiving) (received : packet.Received)
      (name : cStr packet.command.toUString = objectName)
      (decoded : Object.ofPacket packet = .ok obj)
      (invalid : Node.validateObj platform draws.now obj = .ok false) :
      Listen platform k sys self (.receive packet) sys self []
  | leave {sys after : System} {self : Peer} {obj : Object} (phase : self.listener = .analysing)
      (step : System.Step platform sys (.leave k obj) after) :
      Listen platform k sys self (.leave obj) after { self with listener := .receiving } []
  | announce {sys after : System} {self : Peer} {obj : Object} (phase : self.listener = .analysing)
      (step : System.Step platform sys (.announce k obj) after) :
      Listen platform k sys self (.announce obj) after self []
  | handle {sys after : System} {self : Peer} {obj : Object} {tags : List (Block 32)}
      (phase : self.listener = .analysing) (step : System.Step platform sys (.handle k obj) after)
      (announced : after.node.newInv = sys.node.newInv ++ tags) :
      Listen platform k sys self (.handle obj tags) after { self with listener := .receiving } []
  | other {sys : System} {self : Peer} {packet : Packet} (phase : self.listener = .receiving)
      (received : packet.Received)
      (unknown : cStr packet.command.toUString ∉
        [pongName, versionName, verackName, addrName, invName, getdataName, objectName]) :
      Listen platform k sys self (.receive packet) sys self []

end Peer

/-! ## The whole node -/

/-- What `listen_inv` is at. -/
inductive InvPhase where
  | gathering (inventory : List (Block 32))
  /-- The queue was empty. -/
  | flushing (inventory : List (Block 32))
  /-- The loop was left. -/
  | ended

/-- What `listen_packets` is at; from `pushing` on it has locked the connections. -/
inductive PacketPhase where
  | waiting
  | popped (packet : Packet)
  | pushing (packet : Packet) (i : Nat)
  /-- The loop was left. -/
  | ended

structure Running where
  sys : System
  inv : InvPhase
  packets : PacketPhase
  peers : List Peer
  /-- What the three loops of the node read in front of each round. -/
  running : Bool

/-- `processPOW` has read this of `running` in front of a round. -/
def PowAct.Reads (running : Bool) : PowAct → Prop
  | .take _ => running = true
  | .leave => running = false
  | _ => True

namespace Running

inductive Label where
  /-- The last statement of `start`. -/
  | started
  | gather (tag : Block 32)
  | finish
  | flush (inventory : List (Block 32))
  | endInv
  | pop (packet : Packet)
  | lock
  | push (packet : Packet) (i : Nat)
  | unlock
  | endPackets
  /-- An operation announces these tags. -/
  | operate (tags : List (Block 32))
  | pow (act : PowAct)
  /-- A connection to a node that the user or `init` names. -/
  | connect
  | send (k : Nat) (act : Peer.SenderAct)
  | listen (k : Nat) (act : Peer.ListenerAct)

/-- A node whose threads were just started; `start` has still to set `running`. -/
def start (node : Node) : Running where
  sys := .idle node
  inv := .gathering []
  packets := .waiting
  peers := []
  running := false

/-- `mutex_nodes` is held, so that no connection can be added. -/
def Locked (self : Running) : Prop := ∃ packet i, self.packets = .pushing packet i

def withNode (self : Running) (node : Node) : System := { self.sys with node }

inductive Step (platform : Platform) : Running → Label → Running → Prop
  | started (self : Running) : Step platform self .started { self with running := true }
  | gather {self : Running} {inventory : List (Block 32)} {tag : Block 32}
      {rest : List (Block 32)} (phase : self.inv = .gathering inventory)
      (queued : self.sys.node.newInv = tag :: rest) (on : inventory = [] → self.running = true) :
      Step platform self (.gather tag) {
        self with
        sys := self.withNode { self.sys.node with newInv := rest }
        inv := .gathering (inventory ++ [tag]) }
  | finish {self : Running} {inventory : List (Block 32)}
      (phase : self.inv = .gathering inventory) (empty : self.sys.node.newInv = [])
      (on : inventory = [] → self.running = true) :
      Step platform self .finish { self with inv := .flushing inventory }
  | flush {self : Running} {draws : Draws platform} {inventory : List (Block 32)}
      (phase : self.inv = .flushing inventory) :
      Step platform self (.flush inventory) {
        self with
        sys := self.withNode (if inventory = [] then self.sys.node else self.sys.node.send platform
          (PacketInv.encodeData ⟨draws.object.toPacket, inventory⟩).toPacket)
        inv := .gathering [] }
  | endInv {self : Running} (phase : self.inv = .gathering []) (off : self.running = false) :
      Step platform self .endInv { self with inv := .ended }
  | pop {self : Running} {packet : Packet} {rest : List Packet} (phase : self.packets = .waiting)
      (queued : self.sys.node.newPackets = packet :: rest) (on : self.running = true) :
      Step platform self (.pop packet) {
        self with
        sys := self.withNode { self.sys.node with newPackets := rest }
        packets := .popped packet }
  | lock {self : Running} {packet : Packet} (phase : self.packets = .popped packet) :
      Step platform self .lock { self with packets := .pushing packet 0 }
  | push {self : Running} {packet : Packet} {i : Nat} {peer : Peer}
      (phase : self.packets = .pushing packet i) (here : self.peers[i]? = some peer) :
      Step platform self (.push packet i) {
        self with
        packets := .pushing packet (i + 1)
        peers := self.peers.set i { peer with conn := peer.push [packet] } }
  | unlock {self : Running} {packet : Packet} {i : Nat} (phase : self.packets = .pushing packet i)
      (last : self.peers.length ≤ i) :
      Step platform self .unlock { self with packets := .waiting }
  | endPackets {self : Running} (phase : self.packets = .waiting) (off : self.running = false) :
      Step platform self .endPackets { self with packets := .ended }
  /-- The queues and the peers are not what these operations are about. -/
  | operate {self : Running} {after : Node} {tags : List (Block 32)}
      (operation : self.sys.node.Operation platform after)
      (packets : after.newPackets = self.sys.node.newPackets)
      (nodes : after.nodes = self.sys.node.nodes)
      (announced : after.newInv = self.sys.node.newInv ++ tags) :
      Step platform self (.operate tags) { self with sys := self.withNode after }
  | pow {self : Running} {act : PowAct} {sys : System}
      (step : System.Step platform self.sys (.pow act) sys) (reads : act.Reads self.running) :
      Step platform self (.pow act) { self with sys }
  | connect {self : Running} {version : Int32} (ip port : UString) (free : ¬self.Locked) :
      Step platform self .connect {
        self with
        sys := self.withNode { self.sys.node with nodes := self.sys.node.nodes ++ [(ip, port)] }
        peers := self.peers ++ [Peer.new version] }
  | send {self : Running} {k : Nat} {peer after : Peer} {act : Peer.SenderAct}
      (here : self.peers[k]? = some peer) (step : peer.Send act after) :
      Step platform self (.send k act) { self with peers := self.peers.set k after }
  | listen {self : Running} {k : Nat} {peer after : Peer} {act : Peer.ListenerAct} {sys : System}
      {spawned : List Peer} (here : self.peers[k]? = some peer)
      (step : Peer.Listen platform k self.sys peer act sys after spawned)
      (free : spawned ≠ [] → ¬self.Locked) :
      Step platform self (.listen k act)
        { self with sys, peers := self.peers.set k after ++ spawned }

/-! ### The steps of the system -/

/-- A thread works on the system in at most one of its steps. -/
theorem Step.system {self after : Running} {label : Label} (step : Step platform self label after) :
    after.sys = self.sys ∨ ∃ event, System.Step platform self.sys event after.sys := by
  have suffix {α : Type} (list : List α) : list <:+ list := List.suffix_refl list
  cases step with
  | gather _ queued =>
      refine .inr ⟨_, .operation (.takeQueued _ (suffix _) (suffix _) ?_)⟩
      rw [queued]
      exact List.suffix_cons _ _
  | started => exact .inl rfl
  | finish => exact .inl rfl
  | endInv => exact .inl rfl
  | endPackets => exact .inl rfl
  | @flush draws inventory =>
      by_cases empty : inventory = []
      · rw [if_pos empty]
        exact .inl rfl
      · rw [if_neg empty]
        exact .inr ⟨_, .operation (.send _ _)⟩
  | pop _ queued =>
      refine .inr ⟨_, .operation (.takeQueued _ ?_ (suffix _) (suffix _))⟩
      rw [queued]
      exact List.suffix_cons _ _
  | lock => exact .inl rfl
  | push => exact .inl rfl
  | unlock => exact .inl rfl
  | operate operation => exact .inr ⟨_, .operation operation⟩
  | pow step => exact .inr ⟨_, step⟩
  | connect => exact .inr ⟨_, .operation (.takeQueued _ (suffix _) (suffix _) (suffix _))⟩
  | send => exact .inl rfl
  | listen _ step =>
      cases step with
      | addr => exact .inr ⟨_, .operation (.send _ _)⟩
      | @introduce _ _ address =>
          refine .inr ⟨.operation, .operation ?_⟩
          obtain ⟨nodes, same⟩ := self.sys.node.connectAddress_eq address
          rw [same]
          exact .takeQueued nodes (suffix _) (suffix _) (suffix _)
      | object _ _ _ decoded valid free => exact .inr ⟨_, .insert free decoded valid⟩
      | leave _ step => exact .inr ⟨_, step⟩
      | announce _ step => exact .inr ⟨_, step⟩
      | handle _ step => exact .inr ⟨_, step⟩
      | _ => exact .inl rfl

/-- What `processPOW` does in a step. -/
def Label.pow? : Label → Option PowAct
  | .pow act => some act
  | _ => none

/-- Only its own steps take `processPOW` to another phase. -/
theorem Step.pow_cases {self after : Running} {label : Label}
    (step : Step platform self label after) :
    (∃ act, label = .pow act ∧ System.Step platform self.sys (.pow act) after.sys) ∨
      label.pow? = none ∧ after.sys.pow = self.sys.pow := by
  cases step with
  | pow step => exact .inl ⟨_, rfl, step⟩
  | listen _ step =>
      refine .inr ⟨rfl, ?_⟩
      cases step with
      | leave _ step =>
          cases step
          rfl
      | announce _ step =>
          cases step
          rfl
      | handle _ step =>
          cases step
          rfl
      | _ => rfl
  | _ => exact .inr ⟨rfl, rfl⟩

/-- What holds of every reachable system holds of a running node. -/
theorem reachable_sys {node : Node} {trace : List (Running × Label)} {after : Running}
    (reachable : System.Reachable platform (.idle node))
    (run : Run (Step platform) (start node) trace after) :
    System.Reachable platform after.sys := by
  refine @Run.state_invariant _ _ _ _ _ _ (fun self => System.Reachable platform self.sys)
    reachable ?_ run
  intro self label after held step
  rcases step.system with same | ⟨event, moved⟩
  · rwa [same]
  · exact held.step moved

/-- Connections stay where they are in the list. -/
theorem Step.peers_length {self after : Running} {label : Label}
    (step : Step platform self label after) : self.peers.length ≤ after.peers.length := by
  cases step with
  | push => simp
  | connect => simp
  | send => simp
  | listen => simp
  | _ => exact Nat.le_refl _

end Running

end BitMRC

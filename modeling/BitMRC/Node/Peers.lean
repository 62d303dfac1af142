import BitMRC.Node.Threads

/-!
# One connection in a running node

Whatever the rest of the node does, a single connection changes only in steps of its own two
threads and when `listen_packets` puts a packet into its queue.  So what these three keep
or conserve, every run keeps or conserves.
-/

namespace BitMRC

open Foundation UString

variable {platform : Platform} {α : Type}

namespace Peer

/-- What happens to a connection. -/
inductive Act where
  | push (packet : Packet)
  | send (act : SenderAct)
  | listen (act : ListenerAct)

inductive Step (platform : Platform) (k : Nat) : Peer → Act → Peer → Prop
  | push (self : Peer) (packet : Packet) :
      Step platform k self (.push packet) { self with conn := self.push [packet] }
  | send {self after : Peer} {act : SenderAct} (step : Send self act after) :
      Step platform k self (.send act) after
  | listen {sys sys' : System} {self after : Peer} {act : ListenerAct} {spawned : List Peer}
      (step : Listen platform k sys self act sys' after spawned) :
      Step platform k self (.listen act) after

/-- Only new connections are started. -/
theorem Listen.spawned {k : Nat} {sys sys' : System} {self after : Peer} {act : ListenerAct}
    {spawned : List Peer} (step : Listen platform k sys self act sys' after spawned) :
    ∀ peer ∈ spawned, ∃ version, peer = Peer.new version := by
  cases step with
  | introduce =>
      intro peer member
      split at member
      next => exact ⟨_, List.mem_singleton.mp member⟩
      next => cases member
  | _ => exact nofun

/-- An `addr` that is passed on is all that a listener puts into `new_packets`. -/
theorem Listen.newPackets_cases {k : Nat} {sys sys' : System} {self after : Peer}
    {act : ListenerAct} {spawned : List Peer}
    (step : Listen platform k sys self act sys' after spawned) :
    sys'.node.newPackets = sys.node.newPackets ∨ ∃ packet : Packet, act = .receive packet ∧
      packet.Received ∧ cStr packet.command.toUString = addrName ∧ sys'.node.newPackets =
        sys.node.newPackets ++ [Node.setChecksumLenghtMagic platform packet] := by
  cases step with
  | addr _ received name => exact .inr ⟨_, rfl, received, name, rfl⟩
  | @introduce _ _ address =>
      obtain ⟨nodes, same⟩ := sys.node.connectAddress_eq address
      rw [same]
      exact .inl rfl
  | leave _ step =>
      cases step
      exact .inl rfl
  | announce _ step =>
      cases step
      exact .inl rfl
  | handle _ step =>
      cases step with
      | handle _ result =>
          obtain ⟨tags, reports⟩ := Node.handleObj_reports result
          exact .inl reports.newPackets
  | _ => exact .inl rfl

/-! ### What a listener holds -/

/-- What the listener goes on with when it has sent something. -/
def Resumable : ListenerPhase → Prop
  | .receiving | .collecting | .telling _ _ | .accepting => True
  | .writing _ next => Resumable next
  | _ => False

/-- The tags that it looks at came in one packet. -/
def HoldsReceived (self : Peer) : Prop :=
  match self.listener with
  | .writing _ next => Resumable next
  | .checking offered needed => (offered.length + needed.length) * 32 < intLimit
  | _ => True

theorem readInventory_received {packet : Packet} {tags : List (Block 32)}
    (received : packet.Received)
    (decoded : readInventory.value packet.messagePayload 0 = .ok tags) :
    tags.length * 32 < intLimit := by
  obtain ⟨ending, bytes, start, stop, read⟩ := received
  have short := Packet.payload_short (Packet.getCommand_length read)
  exact Nat.lt_of_le_of_lt (readInventory_length short decoded) short

theorem ofPacket_inv {packet : Packet} {inv : PacketInv}
    (decoded : PacketInv.ofPacket packet = .ok inv) :
    readInventory.value packet.messagePayload 0 = .ok inv.inventory := by
  obtain ⟨tags, read, packed⟩ := bind_eq_ok.mp decoded
  cases packed
  exact read

theorem ofPacket_getdata {packet : Packet} {getdata : PacketGetdata}
    (decoded : PacketGetdata.ofPacket packet = .ok getdata) :
    readInventory.value packet.messagePayload 0 = .ok getdata.inventory := by
  obtain ⟨tags, read, packed⟩ := bind_eq_ok.mp decoded
  cases packed
  exact read

/-- An invariant of single connections. -/
structure Keeps (platform : Platform) (holds : Peer → Prop) : Prop where
  new : ∀ version, holds (Peer.new version)
  step : ∀ {k self act after}, Step platform k self act after → holds self → holds after

/-- Behind a write there is never a list of tags. -/
theorem Resumable.holdsReceived {self : Peer} (behind : Resumable self.listener) :
    self.HoldsReceived := by
  unfold HoldsReceived
  cases phase : self.listener with
  | writing calls next =>
      rw [phase] at behind
      exact behind
  | checking offered needed =>
      rw [phase] at behind
      exact behind.elim
  | _ => trivial

theorem keeps_holdsReceived : Keeps platform HoldsReceived where
  new := fun version => trivial
  step := by
    intro k self act after step holdsReceived
    cases step with
    | push => exact holdsReceived
    | send step =>
        cases step with
        | _ => exact holdsReceived
    | listen step =>
        cases step with
        | connect => exact trivial
        | write phase =>
            rw [HoldsReceived, phase] at holdsReceived
            exact holdsReceived
        | done phase =>
            rw [HoldsReceived, phase] at holdsReceived
            exact holdsReceived.holdsReceived
        | pong => exact trivial
        | verack => exact trivial
        | @tell _ _ draws inventory i calls phase =>
            show Resumable _
            split
            next => trivial
            next => trivial
        | inv phase received name decoded =>
            exact readInventory_received received (ofPacket_inv decoded)
        | check phase =>
            simp only [HoldsReceived, phase, List.length_cons] at holdsReceived ⊢
            split
            next => omega
            next =>
              rw [List.length_append, List.length_singleton]
              omega
        | refuse => exact holdsReceived
        | other => exact holdsReceived
        | version => exact holdsReceived
        | announce => exact holdsReceived
        | _ => exact trivial

end Peer

namespace Running

/-- A part of connection `k`, which is empty before the connection is there. -/
def view (k : Nat) (part : Peer → List α) (self : Running) : List α :=
  self.peers[k]?.elim [] part

theorem view_eq {k : Nat} {part : Peer → List α} {self : Running} {peer : Peer}
    (here : self.peers[k]? = some peer) : self.view k part = part peer := by
  rw [view, here, Option.elim_some]

/-- What a step of the node does to connection `k`. -/
def Label.act? (k : Nat) : Label → Option Peer.Act
  | .push packet i => if i = k then some (.push packet) else none
  | .send j act => if j = k then some (.send act) else none
  | .listen j act => if j = k then some (.listen act) else none
  | _ => none

theorem Label.eq_push {k : Nat} {label : Label} {packet : Packet}
    (named : label.act? k = some (.push packet)) : label = .push packet k := by
  cases label with
  | push pushed i =>
      simp only [act?] at named
      split at named
      next same => cases named; rw [same]
      next => cases named
  | send => simp only [act?] at named; split at named <;> cases named
  | listen => simp only [act?] at named; split at named <;> cases named
  | _ => cases named

theorem Label.eq_listen {k : Nat} {label : Label} {act : Peer.ListenerAct}
    (named : label.act? k = some (.listen act)) : label = .listen k act := by
  cases label with
  | listen j listened =>
      simp only [act?] at named
      split at named
      next same => cases named; rw [same]
      next => cases named
  | push => simp only [act?] at named; split at named <;> cases named
  | send => simp only [act?] at named; split at named <;> cases named
  | _ => cases named

theorem Label.eq_send {k : Nat} {label : Label} {act : Peer.SenderAct}
    (named : label.act? k = some (.send act)) : label = .send k act := by
  cases label with
  | send j sent =>
      simp only [act?] at named
      split at named
      next same => cases named; rw [same]
      next => cases named
  | push => simp only [act?] at named; split at named <;> cases named
  | listen => simp only [act?] at named; split at named <;> cases named
  | _ => cases named

/-- The items that come with what a step does to connection `k`. -/
def Label.on (k : Nat) (items : Peer.Act → List α) (label : Label) : List α :=
  (label.act? k).elim [] items

/-- What a step of the node is for connection `k`. -/
inductive Touches (platform : Platform) (k : Nat) (running : Running) (label : Label)
    (after : Running) : Prop
  | alone (same : after.peers[k]? = running.peers[k]?) (none : label.act? k = none)
  | started {version : Int32} (absent : running.peers[k]? = none)
      (new : after.peers[k]? = some (Peer.new version)) (none : label.act? k = none)
  | moved {peer peer' : Peer} {act : Peer.Act} (here : running.peers[k]? = some peer)
      (there : after.peers[k]? = some peer') (named : label.act? k = some act)
      (step : Peer.Step platform k peer act peer')
      (listens : ∀ listened, act = .listen listened → ∃ spawned,
        Peer.Listen platform k running.sys peer listened after.sys peer' spawned)

/-- One connection moves, and new ones may be started behind the others. -/
theorem Touches.of_set {self after : Running} {label : Label} {j : Nat} {act : Peer.Act}
    {peer peer' : Peer} {spawned : List Peer} (here : self.peers[j]? = some peer)
    (step : Peer.Step platform j peer act peer')
    (listens : ∀ listened, act = .listen listened → ∃ spawned,
      Peer.Listen platform j self.sys peer listened after.sys peer' spawned)
    (peers : after.peers = self.peers.set j peer' ++ spawned)
    (new : ∀ peer ∈ spawned, ∃ version, peer = Peer.new version)
    (named : ∀ k, label.act? k = if j = k then some act else none) (k : Nat) :
    Touches platform k self label after := by
  have inside := (List.getElem?_eq_some_iff.mp here).1
  by_cases old : k < self.peers.length
  · have front : after.peers[k]? = (self.peers.set j peer')[k]? := by
      rw [peers, List.getElem?_append_left (by rwa [List.length_set])]
    by_cases mine : j = k
    · subst mine
      rw [List.getElem?_set_self inside] at front
      exact .moved here front (by rw [named, if_pos rfl]) step listens
    · rw [List.getElem?_set_ne mine] at front
      exact .alone front (by rw [named, if_neg mine])
  · have behind : after.peers[k]? = spawned[k - self.peers.length]? := by
      rw [peers, List.getElem?_append_right (by rw [List.length_set]; omega), List.length_set]
    have absent := List.getElem?_eq_none (Nat.le_of_not_lt old)
    have other : label.act? k = none := by rw [named, if_neg (by omega)]
    cases found : spawned[k - self.peers.length]? with
    | none => exact .alone (by rw [behind, found, absent]) other
    | some fresh =>
        obtain ⟨version, rfl⟩ := new fresh (List.mem_of_getElem? found)
        exact .started absent (behind.trans found) other

theorem Step.touches {self after : Running} {label : Label}
    (step : Step platform self label after) (k : Nat) : Touches platform k self label after := by
  cases step with
  | @push packet i peer phase here =>
      exact .of_set here (.push peer packet) (fun _ => nofun) (List.append_nil _).symm
        (List.forall_mem_nil _) (fun k => rfl) k
  | send here step =>
      exact .of_set here (.send step) (fun _ => nofun) (List.append_nil _).symm
        (List.forall_mem_nil _) (fun k => rfl) k
  | listen here step =>
      refine .of_set here (.listen step) ?_ rfl step.spawned (fun k => rfl) k
      rintro listened ⟨⟩
      exact ⟨_, step⟩
  | @connect version =>
      by_cases old : k < self.peers.length
      · exact .alone (List.getElem?_append_left old) rfl
      · have behind := @List.getElem?_append_right _ self.peers [Peer.new version] k (by omega)
        have absent := List.getElem?_eq_none (Nat.le_of_not_lt old)
        cases place : k - self.peers.length with
        | zero => exact .started absent (by rw [behind, place]; rfl) rfl
        | succ n => exact .alone (by rw [behind, place, absent]; rfl) rfl
  | _ => exact .alone rfl rfl

/-- Only a step of its listener takes connection `k` to another phase. -/
theorem Step.listener_cases {self after : Running} {label : Label} {k : Nat} {peer : Peer}
    (step : Step platform self label after) (here : after.peers[k]? = some peer) :
    (∃ before, self.peers[k]? = some before ∧ peer.listener = before.listener) ∨
      peer.listener = .resolving ∨
      ∃ before act spawned, self.peers[k]? = some before ∧ label.act? k = some (.listen act) ∧
        Peer.Listen platform k self.sys before act after.sys peer spawned := by
  cases step.touches k with
  | alone same => exact .inl ⟨peer, same.symm.trans here, rfl⟩
  | started absent new =>
      cases new.symm.trans here
      exact .inr (.inl rfl)
  | moved before there named moved listens =>
      cases there.symm.trans here
      cases moved with
      | push => exact .inl ⟨_, before, rfl⟩
      | send sent =>
          refine .inl ⟨_, before, ?_⟩
          cases sent with
          | _ => rfl
      | listen =>
          obtain ⟨spawned, listen⟩ := listens _ rfl
          exact .inr (.inr ⟨_, _, spawned, before, named, listen⟩)

/-- What happens to connection `k` is allowed. -/
def Allows (k : Nat) (allowed : Peer → Peer.Act → Prop) (running : Running) (label : Label) :
    Prop :=
  ∀ peer act, running.peers[k]? = some peer → label.act? k = some act → allowed peer act

/-- An invariant of single connections holds of connection `k` while only what is allowed
happens to it. -/
theorem Step.keeps_one {k : Nat} {holds : Peer → Prop} {allowed : Peer → Peer.Act → Prop}
    (new : ∀ version, holds (Peer.new version))
    (keeps : ∀ {peer act after}, Peer.Step platform k peer act after → allowed peer act →
      holds peer → holds after)
    {self after : Running} {label : Label} (step : Step platform self label after)
    (allows : Allows k allowed self label)
    (held : ∀ peer, self.peers[k]? = some peer → holds peer) :
    ∀ peer, after.peers[k]? = some peer → holds peer := by
  intro peer found
  cases step.touches k with
  | alone same => exact held peer (same.symm.trans found)
  | @started version absent started =>
      cases started.symm.trans found
      exact new version
  | moved here there named step =>
      cases there.symm.trans found
      exact keeps step (allows _ _ here named) (held _ here)

/-- An invariant of single connections holds of all of them. -/
theorem Step.keeps {holds : Peer → Prop} (keeps : Peer.Keeps platform holds)
    {self after : Running} {label : Label} (step : Step platform self label after)
    (all : ∀ peer ∈ self.peers, holds peer) : ∀ peer ∈ after.peers, holds peer := by
  intro peer member
  obtain ⟨k, found⟩ := List.mem_iff_getElem?.mp member
  refine step.keeps_one keeps.new (fun step _ => keeps.step step)
    (show Allows k (fun _ _ => True) self label from fun _ _ _ _ => trivial) ?_ peer found
  exact fun peer here => all peer (List.mem_of_getElem? here)

/-- What a single connection conserves, the node conserves. -/
theorem view_conserves {k : Nat} {allowed : Peer → Peer.Act → Prop} {part : Peer → List α}
    {put taken : Peer.Act → List α} (new : ∀ version, part (Peer.new version) = [])
    (conserves : Conserves
      (fun self act after => allowed self act ∧ Peer.Step platform k self act after) part
      (fun _ act => put act) (fun _ act => taken act)) :
    Conserves (fun self label after => Allows k allowed self label ∧ Step platform self label after)
      (view k part) (fun _ label => label.on k put) (fun _ label => label.on k taken) := by
  rintro self label after ⟨allows, step⟩
  dsimp only [Label.on]
  cases step.touches k with
  | alone same none =>
      rw [none, view, view, same]
      exact (List.append_nil _).symm
  | started absent started none =>
      rw [none, view_eq started, new, view, absent]
      rfl
  | moved here there named step =>
      rw [named, view_eq here, view_eq there]
      exact conserves ⟨allows _ _ here named, step⟩

end Running

/-! ## The queue of a connection -/

namespace Peer

/-- What a step puts into the queue, through the eyes of a view of requests and answers. -/
def Act.queued (view : Packet → List α) (request : List (Block 32) → List α)
    (answer : UString → List α) : Act → List α
  | .push packet => view packet
  | .listen (.request needed) => if needed = [] then [] else request needed
  | .listen (.answer _ objPayload) => if objPayload = [] then [] else answer objPayload
  | _ => []

/-- What `Sender` takes, to send it at once; a packet whose `send` fails is lost. -/
def Act.sent (view : Packet → List α) : Act → List α
  | .send (.pop packet) => view packet
  | _ => []

theorem packets_conserves {k : Nat} {holds : Peer → Prop} (view : Packet → List α)
    {request : List (Block 32) → List α} {answer : UString → List α}
    (requests : ∀ (draws : Draws platform) (self : Peer) (needed : List (Block 32)), holds self →
      self.listener = .checking [] needed → view (Node.setChecksumLenghtMagic platform
        (PacketGetdata.encodeData ⟨draws.object.toPacket, needed⟩).toPacket) = request needed)
    (answers : ∀ (draws : Draws platform) (objPayload : UString),
      view (Node.objectPacket draws objPayload) = answer objPayload) :
    Conserves (fun self act after => holds self ∧ Step platform k self act after)
      (fun self => self.conn.packets.flatMap view) (fun _ act => act.queued view request answer)
      (fun _ act => act.sent view) := by
  rintro self act after ⟨held, step⟩
  cases step with
  | push packet =>
      simp only [push, Act.queued, Act.sent, List.flatMap_append, List.flatMap_singleton,
        List.nil_append]
  | send step =>
      cases step with
      | pop waiting queued =>
          simp only [queued, Act.queued, Act.sent, List.flatMap_cons, List.append_nil]
      | _ => exact (List.append_nil _).symm
  | listen step =>
      cases step with
      | request phase =>
          simp only [push, Act.queued, Act.sent, List.flatMap_append, List.nil_append]
          split
          next => rfl
          next => rw [List.flatMap_singleton, requests _ self _ held phase]
      | answer phase found =>
          simp only [push, Act.queued, Act.sent, List.flatMap_append, List.nil_append]
          split
          next => rfl
          next => rw [List.flatMap_singleton, answers]
      | _ => exact (List.append_nil _).symm

end Peer

namespace Running

/-- `Packets` of connection `k`. -/
def queue (k : Nat) (self : Running) : List Packet := self.view k fun peer => peer.conn.packets

/-- The queue, through the eyes of any view of its packets. -/
theorem queue_conserves {k : Nat} {holds : Peer → Prop} (view : Packet → List α)
    {request : List (Block 32) → List α} {answer : UString → List α}
    (requests : ∀ (draws : Draws platform) (self : Peer) (needed : List (Block 32)), holds self →
      self.listener = .checking [] needed → view (Node.setChecksumLenghtMagic platform
        (PacketGetdata.encodeData ⟨draws.object.toPacket, needed⟩).toPacket) = request needed)
    (answers : ∀ (draws : Draws platform) (objPayload : UString),
      view (Node.objectPacket draws objPayload) = answer objPayload) :
    Conserves (fun self label after =>
        Allows k (fun peer _ => holds peer) self label ∧ Step platform self label after)
      (fun self => (self.queue k).flatMap view)
      (fun _ label => label.on k (Peer.Act.queued view request answer))
      (fun _ label => label.on k (Peer.Act.sent view)) := by
  have conserves := @view_conserves platform _ k (fun peer _ => holds peer)
    (fun peer => peer.conn.packets.flatMap view) _ _ (fun version => rfl)
    (Peer.packets_conserves view requests answers)
  have same (self : Running) : (self.queue k).flatMap view =
      self.view k fun peer => peer.conn.packets.flatMap view := by
    rw [queue, Running.view, Running.view]
    cases self.peers[k]? with
    | none => rfl
    | some peer => rfl
  intro self label after moved
  dsimp only
  rw [same, same]
  exact conserves moved

end Running

/-! ### What is in the packets -/

/-- A packet of another name has no tags. -/
theorem Packet.tagsOf_of_name {name : UString} {packet : Packet}
    (different : cStr packet.command.toUString ≠ name) : packet.tagsOf name = [] :=
  if_neg different

theorem Packet.tagsOf_of_decoded {name : UString} {packet : Packet} {tags : List (Block 32)}
    (same : cStr packet.command.toUString = name)
    (decoded : readInventory.value packet.messagePayload 0 = .ok tags) :
    packet.tagsOf name = tags := by
  rw [tagsOf, if_pos same, decoded]

namespace Node

variable {draws : Draws platform}

/-- Any number of tags whose packet still has a length. -/
theorem inventoryPayload_fits {tags : List (Block 32)} (short : tags.length * 32 + 9 < intLimit) :
    (inventoryPayload tags).length < intLimit := by
  have count := appendVarIntB_length_le (UInt64.ofNat tags.length)
  rw [inventoryPayload_length]
  omega

theorem invPacket_name (tags : List (Block 32)) :
    cStr (invPacket draws tags).command.toUString = invName :=
  cStr_setCommand draws.object.toPacket invName (by decide)

theorem getdata_name (needed : List (Block 32)) :
    cStr (setChecksumLenghtMagic platform
      (PacketGetdata.encodeData ⟨draws.object.toPacket, needed⟩).toPacket).command.toUString =
        getdataName :=
  cStr_setCommand draws.object.toPacket getdataName (by decide)

theorem objectPacket_name (objPayload : UString) :
    cStr (objectPacket draws objPayload).command.toUString = objectName := by
  simp only [objectPacket, setChecksumLenghtMagic]
  decide

theorem tagsOf_invPacket {tags : List (Block 32)} (short : tags.length * 32 + 9 < intLimit) :
    (invPacket draws tags).tagsOf invName = tags :=
  Packet.tagsOf_of_decoded (invPacket_name tags)
    (readInventory_payload (inventoryPayload_fits short))

theorem tagsOf_getdata {needed : List (Block 32)} (short : needed.length * 32 < intLimit) :
    (setChecksumLenghtMagic platform
      (PacketGetdata.encodeData ⟨draws.object.toPacket, needed⟩).toPacket).tagsOf getdataName =
        needed := by
  refine Packet.tagsOf_of_decoded (getdata_name needed) (readInventory_payload
    (inventoryPayload_fits ?_))
  simp only [intLimit] at short ⊢
  omega

end Node

end BitMRC

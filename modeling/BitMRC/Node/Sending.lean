import BitMRC.Node.Peers

/-!
# Packets that can be sent

`sendUstring` throws when a payload is shorter than its packet says, and nothing in `Sender`
catches that.  But every packet that comes into a queue has the length of its payload and
a name that fits, and so it is sent as a whole frame.
-/

namespace BitMRC

open Foundation UString

variable {platform : Platform}

namespace Packet

/-- What the other side makes of a packet: its name and its payload. -/
def content (packet : Packet) : UString × UString :=
  (cStr packet.command.toUString, packet.messagePayload)

/-- The name fits, and the length is that of the payload. -/
structure Sendable (packet : Packet) : Prop where
  name : (cStr packet.command.toUString).length ≤ 11
  size : packet.length.toInt32.toInt = packet.messagePayload.length

theorem cStr_nonzero (s : UString) : ∀ byte ∈ cStr s, byte ≠ 0 := by
  intro byte member
  have copied : byte ∈ s.takeWhile (· ≠ 0) := member
  simpa using List.mem_takeWhile_imp copied

/-- A name that fits is copied by `strncpy`. -/
theorem cStr_strncpy {s : UString} {n : Nat} (inside : (cStr s).length ≤ n) :
    cStr (strncpy s n).toUString = cStr s := by
  have nonzero : ∀ byte ∈ cStr s, decide (byte ≠ 0) = true :=
    fun byte member => decide_eq_true (cStr_nonzero s byte member)
  rw [strncpy_toUString inside, cStr, List.takeWhile_append_of_pos nonzero]
  simp

namespace Sendable

variable {packet : Packet}

/-- The frame that is sent; what is behind the name in the array is not. -/
def frame (sendable : packet.Sendable) : Frame where
  magic := packet.magic
  name := cStr packet.command.toUString
  name_length := sendable.name
  name_nonzero := cStr_nonzero _
  checksum := packet.checksum
  payload := packet.messagePayload
  payload_short := payload_short sendable.size

theorem frame_content (sendable : packet.Sendable) :
    sendable.frame.packet.content = packet.content :=
  Prod.ext sendable.frame.cStr_command rfl

theorem sendData (sendable : packet.Sendable) : packet.sendData = .ok sendable.frame.bytes := by
  have name : cStr sendable.frame.packet.command.toUString = cStr packet.command.toUString :=
    sendable.frame.cStr_command
  have length : sendable.frame.packet.length = packet.length := by
    have same : sendable.frame.length.toInt32 = packet.length.toInt32 :=
      Int32.toInt_inj.mp (sendable.frame.length_toInt.trans sendable.size.symm)
    have words := congrArg Int32.toUInt32 same
    rwa [UInt32.toUInt32_toInt32, UInt32.toUInt32_toInt32] at words
  rw [← sendable.frame.sendData_packet]
  unfold Packet.sendData
  rw [name, length]
  rfl

/-- The calls of `send` make up the frame. -/
theorem exists_sendCalls (sendable : packet.Sendable) :
    ∃ calls, packet.sendCalls = .ok calls ∧ calls.flatten = sendable.frame.bytes := by
  have data := sendable.sendData
  rw [sendData_eq_sendCalls] at data
  cases calls : packet.sendCalls with
  | error failure =>
      rw [calls] at data
      cases data
  | ok list =>
      rw [calls] at data
      exact ⟨list, rfl, Except.ok.inj data⟩

/-- `setChecksum_Lenght_Magic` sets the length. -/
theorem checksum (name : (cStr packet.command.toUString).length ≤ 11)
    (short : packet.messagePayload.length < intLimit) :
    (Node.setChecksumLenghtMagic platform packet).Sendable where
  name := name
  size := by
    simp only [intLimit] at short
    simp only [Node.setChecksumLenghtMagic]
    rw [UInt32.toInt32_ofNat', Int32.toInt_ofNat_of_lt short]

/-- What was received has the length that it says. -/
theorem received (received : packet.Received) (name : (cStr packet.command.toUString).length ≤ 11) :
    packet.Sendable where
  name
  size := by
    obtain ⟨ending, bytes, start, stop, read⟩ := received
    exact getCommand_length read

theorem copy (sendable : packet.Sendable) : packet.copy.Sendable where
  name := by
    have fits := sendable.name
    rw [Packet.copy, cStr_strncpy (Nat.le_succ_of_le fits)]
    exact fits
  size := sendable.size

end Sendable

end Packet

/-! ## The packets of a node -/

namespace Node

variable {draws : Draws platform}

theorem invPacket_sendable {tags : List (Block 32)} (short : tags.length * 32 + 9 < intLimit) :
    (invPacket draws tags).Sendable := by
  refine .checksum ?_ (inventoryPayload_fits short)
  rw [PacketInv.encodeData, cStr_setCommand]
  decide

theorem invPacket_content (tags : List (Block 32)) :
    (invPacket draws tags).content = (invName, inventoryPayload tags) :=
  Prod.ext (invPacket_name tags) rfl

theorem getdata_content (needed : List (Block 32)) :
    (setChecksumLenghtMagic platform
      (PacketGetdata.encodeData ⟨draws.object.toPacket, needed⟩).toPacket).content =
        (getdataName, inventoryPayload needed) :=
  Prod.ext (getdata_name needed) rfl

theorem objectPacket_content (objPayload : UString) :
    (objectPacket draws objPayload).content = (objectName, objPayload) :=
  Prod.ext (@objectPacket_name platform draws objPayload) rfl

theorem getdata_sendable {needed : List (Block 32)} (short : needed.length * 32 < intLimit) :
    (setChecksumLenghtMagic platform
      (PacketGetdata.encodeData ⟨draws.object.toPacket, needed⟩).toPacket).Sendable := by
  refine .checksum ?_ (inventoryPayload_fits ?_)
  · rw [PacketGetdata.encodeData, cStr_setCommand]
    decide
  · simp only [intLimit] at short ⊢
    omega

theorem objectPacket_sendable {objPayload : UString} (short : objPayload.length < intLimit) :
    (objectPacket draws objPayload).Sendable :=
  .checksum (show (cStr objectCommand.toUString).length ≤ 11 by decide) short

theorem emptyAddr_sendable : (emptyAddr draws).Sendable := by
  refine .checksum ?_ ?_
  · rw [PacketAddr.encodeData, cStr_setCommand]
    decide
  · show (appendVarIntB [] (UInt64.ofNat 0)).length < intLimit
    decide

end Node

theorem PacketVersion.greeting_name {memory version : PacketVersion} {now : Int64}
    {ip : Block 4} {port : UInt16}
    (greeting : PacketVersion.greeting memory now ip port = .ok version) :
    cStr version.command.toUString = versionName := by
  rw [PacketVersion.greeting, encodeData_eq] at greeting
  cases greeting
  rw [cStr_setCommand]
  rfl

/-- The version that is sent first has a fixed size. -/
theorem PacketVersion.greeting_sendable {memory version : PacketVersion} {now : Int64}
    {ip : Block 4} {port : UInt16}
    (greeting : PacketVersion.greeting memory now ip port = .ok version) :
    (Node.setChecksumLenghtMagic platform version.toPacket).Sendable := by
  refine .checksum ?_ ?_
  · rw [greeting_name greeting]
    decide
  · rw [PacketVersion.greeting, encodeData_eq] at greeting
    cases greeting
    have agent : (appendVarUstringB [] ([] ++ userAgentName)).length = 21 := by decide
    have streams : (appendVarUstringB [] [1]).length = 2 := by decide
    rw [List.length_append, List.length_append, fixedBytes_length (by simp) (by simp), agent,
      streams]
    decide

/-! ## The queues -/

/-- Reachable nodes have a table addressed by its contents. -/
theorem System.Reachable.addressed {sys : System} (reachable : Reachable platform sys) :
    ∃ map, sys.node.ContentAddressed platform map := by
  induction reachable with
  | start => exact ⟨_, .new⟩
  | restart _ result ih =>
      obtain ⟨other, addressed⟩ := ih
      exact addressed.load result
  | step before move ih =>
      obtain ⟨map, addressed⟩ := ih
      rcases move.changes before.sound with changes | agrees
      · exact addressed.changes changes
      · exact ⟨map, addressed.of_sharedObj agrees.sharedObj⟩

namespace Running

/-- Packets of `listen_inv` have a length. -/
def Label.Short : Label → Prop
  | .flush inventory => inventory.length * 32 + 9 < intLimit
  | _ => True

/-- All packets between `send` and the queues of the connections are of some kind. -/
structure Carries (good : Packet → Prop) (running : Running) : Prop where
  newPackets : ∀ packet ∈ running.sys.node.newPackets, good packet
  popped : ∀ packet, running.packets = .popped packet → good packet
  pushing : ∀ packet i, running.packets = .pushing packet i → good packet

/-- They come from `listen_inv` and from the handler of `addr`. -/
theorem Carries.step {good : Packet → Prop} {self after : Running} {label : Label}
    (carries : self.Carries good) (step : Step platform self label after)
    (flushes : ∀ (draws : Draws platform) (inventory : List (Block 32)),
      label = .flush inventory → good (Node.invPacket draws inventory))
    (passes : ∀ (j : Nat) (packet : Packet), label = .listen j (.receive packet) →
      packet.Received → cStr packet.command.toUString = addrName →
      good (Node.setChecksumLenghtMagic platform packet)) : after.Carries good := by
  obtain ⟨newPackets, popped, pushing⟩ := carries
  have more {packet : Packet} (new : good packet) :
      ∀ other ∈ self.sys.node.newPackets ++ [packet], good other := by
    intro other member
    rcases List.mem_append.mp member with old | last
    · exact newPackets other old
    · rwa [List.mem_singleton.mp last]
  cases step with
  | @flush draws inventory =>
      refine ⟨?_, popped, pushing⟩
      simp only [withNode]
      split
      next => exact newPackets
      next => exact more (flushes draws inventory rfl)
  | pop _ queued =>
      rw [queued] at newPackets
      refine ⟨fun packet member => newPackets packet (List.mem_cons_of_mem _ member), ?_, nofun⟩
      rintro packet ⟨⟩
      exact newPackets _ List.mem_cons_self
  | lock phase =>
      refine ⟨newPackets, nofun, ?_⟩
      rintro packet i ⟨⟩
      exact popped _ phase
  | push phase =>
      refine ⟨newPackets, nofun, ?_⟩
      rintro packet i ⟨⟩
      exact pushing _ _ phase
  | unlock => exact ⟨newPackets, nofun, nofun⟩
  | endPackets => exact ⟨newPackets, nofun, nofun⟩
  | operate _ packets =>
      refine ⟨?_, popped, pushing⟩
      intro packet member
      exact newPackets packet (packets ▸ member)
  | pow step =>
      refine ⟨?_, popped, pushing⟩
      rwa [step.powStays.newPackets]
  | listen _ step =>
      refine ⟨?_, popped, pushing⟩
      rcases step.newPackets_cases with same | ⟨packet, rfl, received, name, passed⟩
      · rwa [same]
      · rw [passed]
        exact more (passes _ packet rfl received name)
  | _ => exact ⟨newPackets, popped, pushing⟩

/-- All packets in the queues can be sent. -/
structure Ready (running : Running) : Prop where
  carries : running.Carries Packet.Sendable
  queued : ∀ (k : Nat) (peer : Peer), running.peers[k]? = some peer →
    ∀ packet ∈ peer.conn.packets, packet.Sendable

end Running

/-- What a listener puts into its queue. -/
theorem Peer.Listen.queued {k : Nat} {sys sys' : System} {self after : Peer} {act : ListenerAct}
    {spawned : List Peer} (step : Listen platform k sys self act sys' after spawned)
    (reachable : System.Reachable platform sys) (holdsReceived : self.HoldsReceived)
    (queued : ∀ packet ∈ self.conn.packets, packet.Sendable) :
    ∀ packet ∈ after.conn.packets, packet.Sendable := by
  have more {packets : List Packet} (new : ∀ packet ∈ packets, packet.Sendable) :
      ∀ packet ∈ self.conn.packets ++ packets, packet.Sendable := by
    intro packet member
    rcases List.mem_append.mp member with old | last
    · exact queued packet old
    · exact new packet last
  cases step with
  | @request _ draws needed phase =>
      refine more ?_
      intro packet member
      split at member
      next => cases member
      next =>
        rw [List.mem_singleton.mp member]
        simp only [HoldsReceived, phase, List.length_nil, Nat.zero_add] at holdsReceived
        exact Node.getdata_sendable holdsReceived
  | @answer _ draws tag asked objPayload phase found =>
      refine more ?_
      intro packet member
      split at member
      next => cases member
      next nonempty =>
        obtain ⟨map, addressed⟩ := reachable.addressed
        rcases addressed.searchByHash_cases draws.buffer tag with
          ⟨payload, search, _, ⟨i, cur, inside, same⟩, _⟩ | ⟨search, _⟩
        · rw [List.mem_singleton.mp member, ← found, search, ← same]
          exact Node.objectPacket_sendable
            (lt_intLimit (reachable.sound.addressed i cur inside).storable.short)
        · exact absurd (found.symm.trans search) nonempty
  | _ => exact queued

namespace Running

theorem Ready.step {self after : Running} {label : Label} (ready : self.Ready)
    (reachable : System.Reachable platform self.sys)
    (holdsReceived : ∀ peer ∈ self.peers, peer.HoldsReceived) (short : label.Short)
    (step : Step platform self label after) : after.Ready := by
  constructor
  · refine ready.carries.step step ?_ ?_
    · rintro draws inventory rfl
      exact Node.invPacket_sendable short
    · intro j packet _ received name
      have fits : (cStr packet.command.toUString).length ≤ 11 := by
        rw [name]
        decide
      exact .checksum fits (Packet.payload_short (Packet.Sendable.received received fits).size)
  · intro k peer found
    cases step.touches k with
    | alone same => exact ready.queued k peer (same.symm.trans found)
    | started absent new =>
        cases new.symm.trans found
        exact nofun
    | moved here there named moved listens =>
        cases there.symm.trans found
        have queued := ready.queued k _ here
        cases moved with
        | push =>
            intro other member
            rcases List.mem_append.mp member with old | last
            · exact queued other old
            · rw [List.mem_singleton.mp last]
              cases Label.eq_push named
              cases step with
              | push phase => exact ready.carries.pushing _ k phase
        | send sent =>
            cases sent with
            | pop waiting first =>
                intro other member
                refine queued other ?_
                rw [first]
                exact List.mem_cons_of_mem _ member
            | _ => exact queued
        | listen =>
            obtain ⟨spawned, listen⟩ := listens _ rfl
            exact listen.queued reachable (holdsReceived _ (List.mem_of_getElem? here)) queued

/-- The only packet in `new_packets` is handed to a peer that was accepted. -/
theorem run_handed {self : Running} {packet : Packet} {conn : Connection}
    {listener : ListenerPhase} (waiting : self.packets = .waiting)
    (queued : self.sys.node.newPackets = [packet]) (on : self.running = true)
    (here : self.peers[0]? = some ⟨conn, listener, .polling⟩) (accepted : conn.state = 2)
    (empty : conn.packets = []) (sendable : packet.Sendable) : ∃ before state after calls,
      Run (Step platform) self (before ++ [(state, .send 0 (.pop packet))]) after ∧
      before.map Prod.snd = [.pop packet, .lock, .push packet 0, .send 0 .poll] ∧
      (∀ taken ∈ before, taken.2.Short) ∧
      after.sys = self.withNode { self.sys.node with newPackets := [] } ∧
      after.peers[0]? = some ⟨conn, listener, .sending calls⟩ := by
  obtain ⟨calls, sends, _⟩ := sendable.exists_sendCalls
  have inside := (List.getElem?_eq_some_iff.mp here).1
  have popped := Run.single (@Step.pop platform self packet [] waiting queued on)
  have pushed := (popped.next (.lock rfl)).next (@Step.push platform _ _ 0 _ rfl here)
  have polled := pushed.next (@Step.send platform _ 0 _ _ _ (List.getElem?_set_self inside)
    (.poll rfl accepted))
  let full : Peer := ⟨{ conn with packets := conn.packets ++ [packet] }, listener, .popping⟩
  have there : ((self.peers.set 0 { full with sender := .polling }).set 0 full)[0]? =
      some full := List.getElem?_set_self (by rwa [List.length_set])
  have first : conn.packets ++ [packet] = packet :: [] := by rw [empty, List.nil_append]
  have sent := polled.next (@Step.send platform _ 0 _ _ _ there (.pop rfl first sends))
  refine ⟨_, _, _, calls, sent, rfl, ?_, rfl, ?_⟩
  · simp only [List.forall_mem_append, List.forall_mem_singleton]
    exact ⟨⟨⟨trivial, trivial⟩, trivial⟩, trivial⟩
  have same : { conn with packets := [] } = conn := by rw [← empty]
  rw [← same]
  exact List.getElem?_set_self (by rwa [List.length_set, List.length_set])

end Running

end BitMRC

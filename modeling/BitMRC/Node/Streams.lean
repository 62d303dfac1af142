import BitMRC.Node.Handlers

/-!
# What the other side receives

The listener of a connection and its sender write to one socket, and nothing keeps their
calls of `send` apart.  But the sender waits until the peer is accepted, and from then on
the listener writes nothing but its answers to `pong` and to another `verack`.  As long as
these do not come, frame follows frame, and a peer that receives like this node gets the
packets as they were sent.
-/

namespace BitMRC

open Foundation UString

variable {platform : Platform}

/-! ## Who writes -/

/-- What a listener still has to write. -/
def ListenerPhase.unwritten : ListenerPhase → UString
  | .writing calls next => calls.flatten ++ next.unwritten
  | _ => []

def SenderPhase.unwritten : SenderPhase → UString
  | .sending calls => calls.flatten
  | _ => []

/-- The phases up to where the peer is accepted. -/
def ListenerPhase.Greets : ListenerPhase → Prop
  | .resolving | .connecting | .writing _ _ | .collecting | .telling _ _ | .accepting => True
  | _ => False

def SenderPhase.Sends : SenderPhase → Prop
  | .popping | .sending _ => True
  | _ => False

namespace Peer

def unwritten (self : Peer) : UString := self.listener.unwritten ++ self.sender.unwritten

/-- Nothing is broken off, and nothing is answered while the sender may write. -/
structure Act.Calm (peer : Peer) (act : Act) : Prop where
  sends : act ≠ .send .fail
  listens : act ≠ .listen .fail
  answers : ∀ packet, act = .listen (.receive packet) →
    cStr packet.command.toUString = pongName ∨ cStr packet.command.toUString = verackName →
      peer.conn.state ≠ 2

/-- At most one of the two threads writes. -/
structure Apart (peer : Peer) : Prop where
  greets : peer.listener.Greets → peer.conn.state ≠ 2
  sends : peer.sender.Sends → peer.conn.state = 2

theorem Apart.quiet {self : Peer} (apart : self.Apart) (greets : self.listener.Greets) :
    ¬self.sender.Sends :=
  fun sends => apart.greets greets (apart.sends sends)

theorem Step.apart {k : Nat} {self after : Peer} {act : Act} (step : Step platform k self act after)
    (calm : act.Calm self) (apart : self.Apart) : after.Apart := by
  have greets {phase : ListenerPhase} (here : self.listener = phase) (front : phase.Greets) :
      self.conn.state ≠ 2 := apart.greets (here ▸ front)
  have sends {phase : SenderPhase} (here : self.sender = phase) (front : phase.Sends) :
      self.conn.state = 2 := apart.sends (here ▸ front)
  cases step with
  | push => exact ⟨apart.greets, apart.sends⟩
  | send step =>
      cases step with
      | poll asleep accepted => exact ⟨apart.greets, fun _ => accepted⟩
      | stop => exact absurd rfl calm.sends
      | pop waiting => exact ⟨apart.greets, fun _ => sends waiting trivial⟩
      | write writing => exact ⟨apart.greets, fun _ => sends writing trivial⟩
      | done => exact ⟨apart.greets, False.elim⟩
      | fail => exact absurd rfl calm.sends
  | listen step =>
      cases step with
      | resolve phase =>
          have quiet := apart.quiet (phase ▸ trivial)
          exact ⟨fun _ => show (3 : Int32) ≠ 2 by decide, fun sends => absurd sends quiet⟩
      | connect => exact ⟨fun _ => show (1 : Int32) ≠ 2 by decide, False.elim⟩
      | unreachable => exact absurd rfl calm.listens
      | write phase => exact ⟨fun _ => greets phase trivial, apart.sends⟩
      | done phase => exact ⟨fun _ => greets phase trivial, apart.sends⟩
      | fail => exact absurd rfl calm.listens
      | pong _ _ name => exact ⟨fun _ => calm.answers _ rfl (.inl name), apart.sends⟩
      | verack _ _ name => exact ⟨fun _ => calm.answers _ rfl (.inr name), apart.sends⟩
      | collect phase => exact ⟨fun _ => greets phase trivial, apart.sends⟩
      | tell phase => exact ⟨fun _ => greets phase trivial, apart.sends⟩
      | accept => exact ⟨False.elim, fun _ => rfl⟩
      | version => exact ⟨apart.greets, apart.sends⟩
      | announce => exact ⟨apart.greets, apart.sends⟩
      | refuse => exact apart
      | other => exact apart
      | _ => exact ⟨False.elim, apart.sends⟩

end Peer

/-! ## What is written -/

theorem Packet.Sendable.written {packet : Packet} (sendable : packet.Sendable)
    {calls : List UString} (sends : packet.sendCalls = .ok calls) :
    ∃ frame : Frame, frame.packet.content = packet.content ∧ frame.bytes = calls.flatten := by
  obtain ⟨list, found, bytes⟩ := sendable.exists_sendCalls
  cases sends.symm.trans found
  exact ⟨sendable.frame, sendable.frame_content, bytes.symm⟩

/-- One packet carries at most 50000 tags. -/
theorem Node.fillInv_length (inventory : List (Block 32)) (i : Nat) :
    (fillInv inventory i).1.length ≤ 50000 - i := by
  induction i using fillInv.induct inventory with
  | case1 i bound tags last found ih =>
      simp only [found] at ih
      simp only [fillInv, dif_pos bound, found, List.length_cons]
      omega
  | case2 i outside =>
      rw [fillInv, dif_neg outside]
      exact Nat.zero_le _

namespace Peer

/-- The name and the payload of each packet that a step starts to write. -/
def Act.contents : Act → List (UString × UString)
  | .send (.pop packet) => [packet.content]
  | .listen (.connect packet) => [packet.content]
  | .listen (.receive packet) =>
      if cStr packet.command.toUString = pongName then
        [packet.content]
      else if cStr packet.command.toUString = verackName then
        [packet.content, (addrName, [0])]
      else
        []
  | .listen (.tell tags) => [(invName, inventoryPayload tags)]
  | _ => []

/-- Most packets are not answered at once. -/
theorem Act.contents_silent {packet : Packet} {name : UString}
    (same : cStr packet.command.toUString = name) (pong : name ≠ pongName)
    (verack : name ≠ verackName) : (Act.listen (.receive packet)).contents = [] := by
  rw [Act.contents, same, if_neg pong, if_neg verack]

/-- A step starts frames with these contents, behind what is already written or is being written. -/
def Transmits (before : Peer) (act : Act) (after : Peer) : Prop :=
  ∃ frames : List Frame, frames.map (fun frame => frame.packet.content) = act.contents ∧
    after.conn.sent ++ after.unwritten =
      before.conn.sent ++ before.unwritten ++ frames.flatMap Frame.bytes

/-- A step that starts no packet leaves what was written and what is to be written together. -/
theorem Transmits.still {self after : Peer} {act : Act} (none : act.contents = [])
    (same : after.conn.sent ++ after.unwritten = self.conn.sent ++ self.unwritten) :
    Transmits self act after :=
  ⟨[], none.symm, by rw [same, List.flatMap_nil, List.append_nil]⟩

/-- A step that starts one packet. -/
theorem Transmits.one {self after : Peer} {act : Act} {packet : Packet} {calls : List UString}
    (sendable : packet.Sendable) (sends : packet.sendCalls = .ok calls)
    (contents : act.contents = [packet.content])
    (same : after.conn.sent ++ after.unwritten =
      self.conn.sent ++ self.unwritten ++ calls.flatten) : Transmits self act after := by
  obtain ⟨frame, content, bytes⟩ := sendable.written sends
  refine ⟨[frame], by rw [contents, List.map_singleton, content], ?_⟩
  rw [same, List.flatMap_singleton, bytes]

/-- While only one thread writes, steps write frame behind frame. -/
theorem Step.transmits {k : Nat} {self after : Peer} {act : Act}
    (step : Step platform k self act after) (calm : act.Calm self) (apart : self.Apart)
    (ready : ∀ packet ∈ self.conn.packets, packet.Sendable) : Transmits self act after := by
  have idle {phase : ListenerPhase} (here : self.listener = phase)
      (front : phase.Greets ∨ self.conn.state ≠ 2) : self.sender.unwritten = [] := by
    have state : self.conn.state ≠ 2 := by
      rcases front with greets | other
      · exact apart.greets (here ▸ greets)
      · exact other
    cases sender : self.sender with
    | sending calls => exact absurd (apart.sends (by rw [sender]; trivial)) state
    | _ => rfl
  -- most steps only go from one phase in which nothing is written to another
  have moves {peer : Peer} {phase : ListenerPhase} (here : self.listener = phase)
      (before : phase.unwritten = []) (behind : peer.conn.sent ++ (peer.listener.unwritten ++
        peer.sender.unwritten) = self.conn.sent ++ self.sender.unwritten) :
      peer.conn.sent ++ peer.unwritten = self.conn.sent ++ self.unwritten := by
    rw [unwritten, behind, unwritten, here, before, List.nil_append]
  cases step with
  | push => exact .still rfl rfl
  | send step =>
      cases step with
      | poll asleep =>
          refine .still rfl ?_
          simp only [unwritten, asleep]
          rfl
      | stop => exact absurd rfl calm.sends
      | pop waiting queued sends =>
          refine .one (ready _ (by rw [queued]; exact List.mem_cons_self)) sends rfl ?_
          simp only [unwritten, waiting, SenderPhase.unwritten, List.append_nil, List.append_assoc]
      | write writing =>
          have state := apart.sends (by rw [writing]; trivial)
          have none : self.listener.unwritten = [] := by
            cases listener : self.listener with
            | writing calls next => exact absurd state (apart.greets (by rw [listener]; trivial))
            | _ => rfl
          refine .still rfl ?_
          simp [unwritten, none, writing, SenderPhase.unwritten, wrote]
      | done writing =>
          refine .still rfl ?_
          simp only [unwritten, writing]
          rfl
      | fail => exact absurd rfl calm.sends
  | listen step =>
      cases step with
      | resolve phase =>
          refine .still rfl ?_
          simp only [unwritten, phase]
          rfl
      | connect phase greeting sends =>
          refine .one (PacketVersion.greeting_sendable greeting) sends rfl ?_
          have none := idle phase (.inl trivial)
          have off : SenderPhase.polling.unwritten = [] := rfl
          simp [unwritten, phase, none, off, ListenerPhase.unwritten]
      | unreachable => exact absurd rfl calm.listens
      | write phase =>
          refine .still rfl ?_
          simp [unwritten, phase, ListenerPhase.unwritten, wrote]
      | done phase =>
          refine .still rfl ?_
          simp [unwritten, phase, ListenerPhase.unwritten]
      | fail => exact absurd rfl calm.listens
      | pong phase received name sends =>
          have fits : (pongName : UString).length ≤ 11 := by decide
          refine .one (.received received (by rwa [name])) sends (if_pos name) ?_
          simp [unwritten, phase, idle phase (.inr (calm.answers _ rfl (.inl name))),
            ListenerPhase.unwritten]
      | @verack _ draws packet calls more phase received name sends sendsAddr =>
          have fits : (verackName : UString).length ≤ 11 := by decide
          have sendable := Packet.Sendable.received received (by rwa [name])
          obtain ⟨first, content, bytes⟩ := sendable.copy.written sends
          obtain ⟨second, contentAddr, bytesAddr⟩ := Node.emptyAddr_sendable.written sendsAddr
          have copied : packet.copy.content = packet.content := by
            rw [Packet.content, Packet.copy, Packet.cStr_strncpy (by rw [name]; decide)]
            rfl
          have addr : (Node.emptyAddr draws).content = (addrName, [0]) := by
            have count : appendVarIntB [] (UInt64.ofNat 0) = [0] := by decide
            exact Prod.ext (cStr_setCommand draws.object.toPacket addrName (by decide)) count
          refine ⟨[first, second], ?_, ?_⟩
          · rw [List.map_cons, List.map_singleton, content, contentAddr, addr]
            simp only [Act.contents, name]
            exact congrArg (fun front => [front, (addrName, [0])]) copied
          · simp [unwritten, phase, idle phase (.inr (calm.answers _ rfl (.inr name))),
              ListenerPhase.unwritten, bytes, bytesAddr]
      | @tell _ draws inventory i calls phase sends =>
          have few := Node.fillInv_length inventory i
          have short : (Node.fillInv inventory i).1.length * 32 + 9 < intLimit := by
            simp only [intLimit]
            omega
          refine .one (Node.invPacket_sendable short) sends ?_ ?_
          · rw [Node.invPacket_content]
            rfl
          · have behind : (if (Node.fillInv inventory i).2 = inventory.length then
                ListenerPhase.accepting
              else .telling inventory (Node.fillInv inventory i).2).unwritten = [] := by
              split <;> rfl
            simp [unwritten, phase, idle phase (.inl trivial), ListenerPhase.unwritten, behind]
      | version _ _ name => exact .still (Act.contents_silent name (by decide) (by decide)) rfl
      | refuse _ _ name => exact .still (Act.contents_silent name (by decide) (by decide)) rfl
      | other _ _ unknown =>
          simp only [List.mem_cons, not_or] at unknown
          exact .still (Act.contents_silent rfl unknown.1 unknown.2.2.1) rfl
      | announce => exact .still rfl rfl
      | inv phase _ name =>
          exact .still (Act.contents_silent name (by decide) (by decide)) (moves phase rfl rfl)
      | getdata phase _ name =>
          exact .still (Act.contents_silent name (by decide) (by decide)) (moves phase rfl rfl)
      | addr phase _ name =>
          exact .still (Act.contents_silent name (by decide) (by decide)) (moves phase rfl rfl)
      | object phase _ name =>
          exact .still (Act.contents_silent name (by decide) (by decide)) (moves phase rfl rfl)
      | collect phase | accept phase | check phase | request phase | answer phase | answered phase
      | introduce phase | introduced phase | leave phase | handle phase =>
          exact .still rfl (moves phase rfl rfl)

end Peer

/-! ## What is received -/

namespace Packet

/-- All packets until the connection ends. -/
def receiveAll (ending : Ending) (received : UString) : Except Exn (List Packet) :=
  Cursor.drain (fun failure => decide (failure = ending.exn)) (getCommand ending)
    (fun packets packet => packets ++ [packet]) (received.length + 1) [] received 0

/-- Of a stream of frames that is cut anywhere, the whole ones are received. -/
theorem receiveAll_cut (ending : Ending) (frames : List Frame) (n : Nat) :
    ∃ whole, whole <+: frames ∧
      receiveAll ending ((frames.flatMap Frame.bytes).take n) = .ok (whole.map Frame.packet) ∧
      ((frames.flatMap Frame.bytes).length ≤ n → whole = frames) := by
  let records := frames.map fun frame => (frame.bytes, frame.packet)
  have file : Cursor.file records = frames.flatMap Frame.bytes := List.flatMap_map ..
  have drained := @Cursor.drain_cut _ _ _ _ (fun failure => decide (failure = ending.exn))
    ending.exn (getCommand ending) (fun packets packet => packets ++ [packet])
    (decide_eq_true rfl) records ?_ ?_ ?_ n []
  · have front := List.prefix_iff_eq_take.mp (Cursor.complete_prefix n records)
    obtain ⟨m, whole⟩ : ∃ m, Cursor.complete n records =
        (frames.take m).map fun frame => (frame.bytes, frame.packet) :=
      ⟨_, front.trans List.map_take.symm⟩
    have collected (packets : List Packet) :
        packets.foldl (fun packets packet => packets ++ [packet]) [] = packets := by
      rw [@List.foldl_append_eq_append _ _ packets fun packet => [packet], ← List.flatMap_def,
        List.flatMap_singleton', List.nil_append]
    refine ⟨frames.take m, List.take_prefix _ _, ?_, ?_⟩
    · rw [receiveAll, ← file, drained, collected, whole, List.map_map]
      rfl
    · intro enough
      rw [Cursor.complete_file records (by rwa [file])] at whole
      have size := congrArg List.length whole
      simp only [records, List.length_map, List.length_take] at size
      exact List.take_of_length_le (by omega)
  · intro record member
    obtain ⟨frame, _, rfl⟩ := List.mem_map.mp member
    exact frame.getCommand_receives ending
  · intro record member
    obtain ⟨frame, _, rfl⟩ := List.mem_map.mp member
    simp [Frame.bytes, Frame.head]
  · intro buffer
    have cut := (Frame.hiddenByte.getCommand_receives ending).cut buffer 0 (by decide)
    rwa [List.take_zero, List.append_nil] at cut

end Packet

/-! ## The connections of a node -/

namespace Running

/-- What a run keeps of connection `k`. -/
structure Streams (k : Nat) (trace : List (Running × Label)) (running : Running) : Prop where
  ready : running.Ready
  holdsReceived : ∀ peer ∈ running.peers, peer.HoldsReceived
  apart : ∀ peer, running.peers[k]? = some peer → peer.Apart
  written : ∃ frames : List Frame, frames.map (fun frame => frame.packet.content) =
      along (fun _ label => label.on k Peer.Act.contents) trace ∧
    running.view k (fun peer => peer.conn.sent ++ peer.unwritten) = frames.flatMap Frame.bytes

theorem Streams.step {k : Nat} {trace : List (Running × Label)} {self after : Running}
    {label : Label} (streams : Streams k trace self)
    (reachable : System.Reachable platform self.sys) (short : label.Short)
    (calm : Allows k Peer.Act.Calm self label) (step : Step platform self label after) :
    Streams k (trace ++ [(self, label)]) after := by
  obtain ⟨ready, holdsReceived, apart, frames, contents, written⟩ := streams
  refine ⟨ready.step reachable holdsReceived short step,
    step.keeps Peer.keeps_holdsReceived holdsReceived, ?_, ?_⟩
  · exact step.keeps_one (fun version => ⟨nofun, False.elim⟩)
      (fun moved calm apart => moved.apart calm apart) calm apart
  · cases step.touches k with
    | alone same none =>
        refine ⟨frames, ?_, ?_⟩
        · rw [along_append, along_singleton, Label.on, none, contents]
          exact (List.append_nil _).symm
        · rw [view, same]
          exact written
    | started absent new none =>
        refine ⟨frames, ?_, ?_⟩
        · rw [along_append, along_singleton, Label.on, none, contents]
          exact (List.append_nil _).symm
        · rw [view, absent] at written
          rw [view_eq new, ← written]
          rfl
    | moved here there named moved =>
        obtain ⟨more, started, sent⟩ := moved.transmits (calm _ _ here named) (apart _ here)
          (ready.queued k _ here)
        rw [view_eq here] at written
        refine ⟨frames ++ more, ?_, ?_⟩
        · rw [along_append, along_singleton, Label.on, named, List.map_append, contents, started]
          rfl
        · rw [view_eq there, sent, written, List.flatMap_append]

/-- Every whole frame that was written is received. -/
theorem Streams.receives {k : Nat} {trace : List (Running × Label)} {running : Running}
    (streams : Streams k trace running) (ending : Ending) : ∃ packets,
      Packet.receiveAll ending (running.view k fun peer => peer.conn.sent) = .ok packets ∧
      packets.map Packet.content <+:
        along (fun _ label => label.on k Peer.Act.contents) trace ∧
      (running.view k Peer.unwritten = [] → packets.map Packet.content =
        along (fun _ label => label.on k Peer.Act.contents) trace) := by
  obtain ⟨frames, contents, written⟩ := streams.written
  have parts : running.view k (fun peer => peer.conn.sent ++ peer.unwritten) =
      (running.view k fun peer => peer.conn.sent) ++ running.view k Peer.unwritten := by
    rw [view, view, view]
    cases running.peers[k]? with
    | none => rfl
    | some peer => rfl
  rw [parts] at written
  obtain ⟨whole, front, received, all⟩ := Packet.receiveAll_cut ending frames
    (running.view k fun peer => peer.conn.sent).length
  rw [← written, List.take_left] at received
  refine ⟨_, received, ?_, ?_⟩
  · rw [List.map_map, ← contents]
    exact front.map _
  · intro rest
    rw [rest, List.append_nil] at written
    rw [List.map_map, ← contents, all (by rw [written])]
    rfl

/-- In a session nothing fails, and only the first `verack` is answered. -/
theorem Session.calm {node : Node} {verack : Packet} {conn : Connection}
    {trace : List (Running × Label)} {reached : Running}
    (session : Session node verack conn trace reached) :
    ∀ taken ∈ trace, Allows 0 Peer.Act.Calm taken.1 taken.2 := by
  intro taken member peer act here named
  rcases session.labels taken member with plain | ⟨same, state⟩
  · cases label : taken.2 with
    | listen j act =>
        rw [label] at plain named
        obtain ⟨rfl, plain⟩ := plain
        cases named
        refine ⟨nofun, ?_, ?_⟩
        · rintro ⟨⟩
          exact plain
        · rintro packet ⟨⟩
          exact plain.elim
    | started | connect =>
        rw [label] at named
        cases named
    | _ =>
        rw [label] at plain
        exact plain.elim
  · rw [same] at named
    cases named
    refine ⟨nofun, nofun, fun _ _ _ => ?_⟩
    rw [state peer here]
    decide

end Running

/-! ## The order of a session -/

/-- In front of the loop over the shared objects, perhaps behind packets that are still being
written. -/
def ListenerPhase.Lists : ListenerPhase → Prop
  | .collecting => True
  | .writing _ next => next.Lists
  | _ => False

/-- The tags in front of the listener, when it tells the peer of all that is stored. -/
def ListenerPhase.untold : ListenerPhase → Option (List (Block 32))
  | .telling inventory i => some (inventory.drop i)
  | .accepting => some []
  | .writing _ next => next.untold
  | _ => none

/-- One packet takes the tags up to where the next one starts. -/
theorem Node.fillInv_drop (inventory : List (Block 32)) (i : Nat) :
    inventory.drop i =
      (fillInv inventory i).1 ++ inventory.drop (fillInv inventory i).2 := by
  induction i using fillInv.induct inventory with
  | case1 i bound tags last found ih =>
      obtain ⟨chunk, more⟩ := bound
      rw [List.drop_eq_getElem_cons more, fillInv, dif_pos ⟨chunk, more⟩, ih]
      rfl
  | case2 i outside => rw [fillInv, dif_neg outside, List.nil_append]

/-- What is left when a packet is filled. -/
theorem ListenerPhase.untold_tell (inventory : List (Block 32)) (i : Nat) (calls : List UString) :
    (writing calls (if (Node.fillInv inventory i).2 = inventory.length then .accepting
      else .telling inventory (Node.fillInv inventory i).2)).untold =
        some (inventory.drop (Node.fillInv inventory i).2) := by
  simp only [untold]
  split
  next last => rw [last, List.drop_length]; rfl
  next => rfl

/-- The tags in a packet of the handler of `verack`. -/
def Peer.Act.lists : Act → List (Block 32)
  | .listen (.tell tags) => tags
  | _ => []

namespace Running

def Label.lists (k : Nat) : Label → List (Block 32) := Label.on k Peer.Act.lists

/-- Some `verack` was received. -/
def Acknowledged (k : Nat) (trace : List (Running × Label)) : Prop :=
  ∃ verack : Packet, cStr verack.command.toUString = verackName ∧
    ∃ taken ∈ trace, taken.2 = .listen k (.receive verack)

/-- Behind a `verack` the shared objects were listed, and the peer was told of them up to `rest`. -/
def Listed (platform : Platform) (k : Nat) (trace : List (Running × Label))
    (rest : List (Block 32)) : Prop :=
  ∃ before state behind, trace = before ++ (state, .listen k .collect) :: behind ∧
    Acknowledged k before ∧
    along (fun _ label => label.lists k) behind ++ rest = state.sys.node.inventory platform

/-- The peer was told of all shared objects behind a `verack`, and then it was accepted. -/
def Accepted (platform : Platform) (k : Nat) (trace : List (Running × Label)) : Prop :=
  ∃ before state behind, trace = before ++ (state, .listen k .accept) :: behind ∧
    Listed platform k before []

/-- How far connection `k` is, and what was before. -/
structure InOrder (platform : Platform) (k : Nat) (trace : List (Running × Label)) (peer : Peer) :
    Prop where
  acknowledged : peer.listener.Lists → Acknowledged k trace
  listed : ∀ rest, peer.listener.untold = some rest → Listed platform k trace rest
  accepted : peer.conn.state = 2 ∨ peer.sender.Sends → Accepted platform k trace

section order

variable {k : Nat} {trace : List (Running × Label)}

theorem Acknowledged.more (acknowledged : Acknowledged k trace) (taken : Running × Label) :
    Acknowledged k (trace ++ [taken]) := by
  obtain ⟨verack, name, earlier, member, received⟩ := acknowledged
  exact ⟨verack, name, earlier, List.mem_append_left _ member, received⟩

theorem Listed.more {rest left : List (Block 32)} (listed : Listed platform k trace rest)
    {taken : Running × Label} (told : taken.2.lists k ++ left = rest) :
    Listed platform k (trace ++ [taken]) left := by
  obtain ⟨before, state, behind, rfl, acknowledged, all⟩ := listed
  refine ⟨before, state, behind ++ [taken], by simp, acknowledged, ?_⟩
  rw [← all, along_append, along_singleton, List.append_assoc, told]

theorem Accepted.more (accepted : Accepted platform k trace) (taken : Running × Label) :
    Accepted platform k (trace ++ [taken]) := by
  obtain ⟨before, state, behind, rfl, listed⟩ := accepted
  exact ⟨before, state, behind ++ [taken], by simp, listed⟩

theorem Accepted.accepts (accepted : Accepted platform k trace) :
    ∃ taken ∈ trace, taken.2 = .listen k .accept := by
  obtain ⟨before, state, behind, rfl, _⟩ := accepted
  exact ⟨_, List.mem_append_right _ List.mem_cons_self, rfl⟩

/-- A step behind which the listener is no further keeps the order. -/
theorem InOrder.keeps {peer after : Peer} (inOrder : InOrder platform k trace peer)
    {taken : Running × Label} (quiet : taken.2.lists k = [])
    (lists : after.listener.Lists → peer.listener.Lists)
    (untold : ∀ rest, after.listener.untold = some rest → peer.listener.untold = some rest)
    (state : after.conn.state = 2 ∨ after.sender.Sends →
      peer.conn.state = 2 ∨ peer.sender.Sends) : InOrder platform k (trace ++ [taken]) after where
  acknowledged := fun phase => (inOrder.acknowledged (lists phase)).more taken
  listed := fun rest left => (inOrder.listed rest (untold rest left)).more (by rw [quiet]; rfl)
  accepted := fun accepted => (inOrder.accepted (state accepted)).more taken

theorem InOrder.step {self : Running} {label : Label} {peer after : Peer} {act : Peer.Act}
    (inOrder : InOrder platform k trace peer) (named : label.act? k = some act)
    (step : Peer.Step platform k peer act after)
    (listens : ∀ listened, act = .listen listened → ∃ sys spawned,
      Peer.Listen platform k self.sys peer listened sys after spawned) :
    InOrder platform k (trace ++ [(self, label)]) after := by
  have lists {tags : List (Block 32)} (same : act.lists = tags) : label.lists k = tags := by
    rw [Label.lists, Label.on, named]
    exact same
  cases step with
  | push => exact inOrder.keeps (lists rfl) id (fun _ => id) id
  | send step =>
      have quiet := @lists [] rfl
      cases step with
      | poll asleep accepted => exact inOrder.keeps quiet id (fun _ => id) fun _ => .inl accepted
      | stop asleep closed => exact inOrder.keeps quiet id (fun _ => id) (Or.imp_right False.elim)
      | pop waiting => exact inOrder.keeps quiet id (fun _ => id) fun _ => .inr (waiting ▸ trivial)
      | write writing =>
          exact inOrder.keeps quiet id (fun _ => id) fun _ => .inr (writing ▸ trivial)
      | done => exact inOrder.keeps quiet id (fun _ => id) (Or.imp_right False.elim)
      | fail writing =>
          exact inOrder.keeps quiet id (fun _ => id) fun _ => .inr (writing ▸ trivial)
  | listen =>
      obtain ⟨sys, spawned, step⟩ := listens _ rfl
      cases step with
      | resolve =>
          exact inOrder.keeps (lists rfl) False.elim nofun
            (Or.imp_left fun accepted => nomatch accepted)
      | connect =>
          exact inOrder.keeps (lists rfl) False.elim nofun
            (Or.imp (fun accepted => nomatch accepted) False.elim)
      | unreachable =>
          exact inOrder.keeps (lists rfl) False.elim nofun
            (Or.imp_left fun accepted => nomatch accepted)
      | fail =>
          exact inOrder.keeps (lists rfl) False.elim nofun
            (Or.imp_left fun accepted => nomatch accepted)
      | write phase =>
          exact inOrder.keeps (lists rfl)
            (fun front => phase ▸ front) (fun _ front => phase ▸ front) id
      | done phase =>
          exact inOrder.keeps (lists rfl)
            (fun front => phase ▸ front) (fun _ front => phase ▸ front) id
      | collect phase =>
          refine ⟨False.elim, fun rest left => ?_,
            fun accepted => (inOrder.accepted accepted).more _⟩
          refine ⟨trace, self, [], ?_, inOrder.acknowledged (phase ▸ trivial), ?_⟩
          · rw [Label.eq_listen named]
          · exact (Option.some.inj left).symm
      | @tell _ draws inventory i calls phase =>
          refine ⟨?_, fun rest left => ?_, fun accepted => (inOrder.accepted accepted).more _⟩
          · simp only [ListenerPhase.Lists]
            split
            next => exact False.elim
            next => exact False.elim
          · rw [ListenerPhase.untold_tell, Option.some.injEq] at left
            subst left
            have front := inOrder.listed (inventory.drop i) (by rw [phase]; rfl)
            exact front.more ((congrArg (· ++ _) (lists rfl)).trans
              (Node.fillInv_drop inventory i).symm)
      | version => exact inOrder.keeps (lists rfl) id (fun _ => id) id
      | announce => exact inOrder.keeps (lists rfl) id (fun _ => id) id
      | refuse => exact inOrder.keeps (lists rfl) id (fun _ => id) id
      | other => exact inOrder.keeps (lists rfl) id (fun _ => id) id
      | @verack _ draws packet _ _ phase received name =>
          refine ⟨fun _ => ⟨packet, name, _, List.mem_append_right _ (List.mem_singleton_self _),
            Label.eq_listen named⟩, nofun, fun accepted => (inOrder.accepted accepted).more _⟩
      | accept phase =>
          refine ⟨False.elim, nofun, fun _ => ⟨trace, self, [], ?_, ?_⟩⟩
          · rw [Label.eq_listen named]
          · exact inOrder.listed [] (by rw [phase]; rfl)
      | _ => exact inOrder.keeps (lists rfl) False.elim nofun id

theorem run_inOrder {node : Node} {after : Running}
    (run : Run (Step platform) (start node) trace after) :
    ∀ peer, after.peers[k]? = some peer → InOrder platform k trace peer := by
  refine @Run.invariant _ _ _ _ _ _ (fun _ _ => True)
    (fun trace self => ∀ peer, self.peers[k]? = some peer → InOrder platform k trace peer)
    (fun _ here => by cases here) ?_ run fun _ _ => trivial
  intro trace self label after _ inOrder _ step peer found
  cases step.touches k with
  | alone same none =>
      have quiet : label.lists k = [] := by rw [Label.lists, Label.on, none]; rfl
      exact (inOrder peer (same.symm.trans found)).keeps quiet id (fun _ => id) id
  | started absent new =>
      cases new.symm.trans found
      exact ⟨False.elim, nofun, fun state => state.elim nofun False.elim⟩
  | moved here there named step listens =>
      cases there.symm.trans found
      refine (inOrder _ here).step named step fun listened same => ?_
      obtain ⟨spawned, listen⟩ := listens listened same
      exact ⟨_, spawned, listen⟩

end order

/-- Nothing that is queued for a peer is taken before its `verack` came, the peer was told of all
objects that were shared then, and the handler was done. -/
theorem popped_after_accept {node : Node} {k : Nat} {packet : Packet} {state after : Running}
    {before behind : List (Running × Label)} (run : Run (Step platform) (start node)
      (before ++ (state, .send k (.pop packet)) :: behind) after) :
    Accepted platform k before := by
  obtain ⟨earlier, next, step, _⟩ := run.split
  cases step with
  | send here step =>
      cases step with
      | pop waiting => exact (run_inOrder earlier _ here).accepted (.inr (waiting ▸ trivial))

/-- After a session, a packet that waits is handed to the peer. -/
theorem Session.handed {node : Node} {verack packet : Packet} {conn : Connection}
    {trace : List (Running × Label)} {reached : Running}
    (session : Session node verack conn trace reached)
    (run : Run (Step platform) (start node) trace reached) (waits : node.newPackets = [packet])
    (sendable : packet.Sendable) : ∃ before state after calls,
      Run (Step platform) (start node) (before ++ [(state, .send 0 (.pop packet))]) after ∧
      (∀ taken ∈ before, taken.2.Short) ∧
      after.sys.node = { node with nodes := node.nodes ++ [([], [])], newPackets := [] } ∧
      after.peers[0]? = some ⟨conn, .receiving, .sending calls⟩ := by
  have queued : reached.sys.node.newPackets = [packet] := by rw [session.sys]; exact waits
  obtain ⟨before, state, after, calls, handed, _, short, sys, there⟩ :=
    run_handed session.packets queued session.on session.here session.state session.queue sendable
  refine ⟨trace ++ before, state, after, calls, ?_, ?_, ?_, there⟩
  · rw [List.append_assoc]
    exact run.append handed
  · exact List.forall_mem_append.mpr ⟨session.short, short⟩
  · rw [sys, withNode, session.sys]
    rfl

/-- The tag of the only object is handed to a peer that was told of it before. -/
theorem popped_after_accept_sample : ∃ node before state after packet,
    Run (Step Platform.sample) (start node) (before ++ [(state, .send 0 (.pop packet))]) after ∧
    packet.tagsOf invName = node.inventory Platform.sample ∧
    node.inventory Platform.sample ≠ [] ∧ Accepted Platform.sample 0 before := by
  let tag := Node.inventoryHash Platform.sample Object.sample.messagePayload
  let packet := Node.invPacket Draws.sample [tag]
  let node : Node := { Node.sampleStored with newPackets := [packet] }
  have one : [tag].length * 32 + 9 < intLimit := by decide
  have inventory : node.inventory Platform.sample = [tag] := Node.sampleStored_inventory
  obtain ⟨trace, reached, conn, run, session⟩ :=
    run_session node Draws.sample Node.sampleVersion Node.sampleVerack_received
      Node.sampleVerack.cStr_command Node.sampleStored_few
  obtain ⟨before, state, after, calls, handed, _⟩ :=
    session.handed run rfl (Node.invPacket_sendable one)
  refine ⟨node, _, _, _, packet, handed, ?_, ?_, popped_after_accept handed⟩
  · rw [inventory]
    exact Node.tagsOf_invPacket one
  · rw [inventory]
    exact List.cons_ne_nil _ _

end Running

end BitMRC

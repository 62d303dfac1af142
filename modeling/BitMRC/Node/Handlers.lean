import BitMRC.Node.Sending

/-!
# The handlers, step by step

`handlePacket` is one round of `Listener` as a function.  In a running node its loops are many
steps, between which other threads go on.  When they do not, the steps come to
what the function returns.
-/

namespace BitMRC

open Foundation UString

variable {platform : Platform}

/-- What is sent at once is written by so many calls. -/
theorem Connection.send_eq_ok {self after : Connection} {packet : Packet}
    (sent : self.send packet = .ok after) :
    ∃ calls, packet.sendCalls = .ok calls ∧
      after = { self with sent := self.sent ++ calls.flatten } := by
  obtain ⟨bytes, data, packed⟩ := bind_eq_ok.mp sent
  cases packed
  rw [Packet.sendData_eq_sendCalls] at data
  cases calls : packet.sendCalls with
  | error failure =>
      rw [calls] at data
      cases data
  | ok list =>
      rw [calls] at data
      cases data
      exact ⟨list, rfl, rfl⟩

namespace Peer

/-- Steps of one listener while nothing else happens. -/
inductive Alone (platform : Platform) (k : Nat) (sys : System) (self : Peer) :
    List ListenerAct → System → Peer → List Peer → Prop
  | nil : Alone platform k sys self [] sys self []
  | next {acts : List ListenerAct} {act : ListenerAct} {sys' sys'' : System} {between after : Peer}
      {spawned more : List Peer} (before : Alone platform k sys self acts sys' between spawned)
      (step : Listen platform k sys' between act sys'' after more) :
      Alone platform k sys self (acts ++ [act]) sys'' after (spawned ++ more)

theorem Alone.trans {k : Nat} {sys sys' sys'' : System} {self between after : Peer}
    {acts more : List ListenerAct} {spawned others : List Peer}
    (first : Alone platform k sys self acts sys' between spawned)
    (second : Alone platform k sys' between more sys'' after others) :
    Alone platform k sys self (acts ++ more) sys'' after (spawned ++ others) := by
  induction second with
  | nil => rwa [List.append_nil, List.append_nil]
  | next _ step ih =>
      rw [← List.append_assoc, ← List.append_assoc]
      exact .next ih step

/-- Nothing is received, and nothing fails. -/
def ListenerAct.Plain : ListenerAct → Prop
  | .receive _ | .fail => False
  | _ => True

/-- Some such steps, in which the listener goes on with what it is at. -/
def GoesOn (platform : Platform) (k : Nat) (sys : System) (self : Peer) (sys' : System)
    (after : Peer) : Prop :=
  ∃ acts spawned, Alone platform k sys self acts sys' after spawned ∧ ∀ act ∈ acts, act.Plain

/-- A packet is received, and handled to the end. -/
def Handles (platform : Platform) (k : Nat) (packet : Packet) (sys : System) (self : Peer)
    (sys' : System) (after : Peer) : Prop :=
  ∃ sys'' between spawned, Listen platform k sys self (.receive packet) sys'' between spawned ∧
    GoesOn platform k sys'' between sys' after

namespace GoesOn

variable {k : Nat} {sys sys' sys'' : System} {self between after : Peer}

theorem refl : GoesOn platform k sys self sys self := ⟨[], [], .nil, nofun⟩

theorem single {act : ListenerAct} {spawned : List Peer}
    (step : Listen platform k sys self act sys' after spawned) (plain : act.Plain) :
    GoesOn platform k sys self sys' after := by
  refine ⟨_, _, .next .nil step, ?_⟩
  intro other member
  rwa [List.mem_singleton.mp member]

theorem trans (first : GoesOn platform k sys self sys' between)
    (second : GoesOn platform k sys' between sys'' after) :
    GoesOn platform k sys self sys'' after := by
  obtain ⟨acts, spawned, first, plain⟩ := first
  obtain ⟨more, others, second, plainMore⟩ := second
  exact ⟨_, _, first.trans second, List.forall_mem_append.mpr ⟨plain, plainMore⟩⟩

/-! ## The loops -/

/-- `send` after `send`. -/
theorem writes {calls : List UString} {next : ListenerPhase}
    (phase : self.listener = .writing calls next) :
    GoesOn platform k sys self sys {
      self with
      conn := { self.conn with sent := self.conn.sent ++ calls.flatten }
      listener := next } := by
  induction calls generalizing self with
  | nil =>
      rw [List.flatten_nil, List.append_nil]
      exact single (.done phase) trivial
  | cons call rest ih =>
      rw [List.flatten_cons, ← List.append_assoc]
      exact (single (.write phase) trivial).trans (ih rfl)

theorem checks (draws : Draws platform) {offered needed : List (Block 32)}
    (phase : self.listener = .checking offered needed) :
    GoesOn platform k sys self sys {
      self with
      listener := .checking [] (needed ++ offered.filter fun tag =>
        !sys.node.sharedObj.present draws.buffer tag.toUString) } := by
  induction offered generalizing self needed with
  | nil =>
      rw [List.filter_nil, List.append_nil, ← phase]
      exact refl
  | cons tag rest ih =>
      have step := single (@Listen.check platform k sys self draws tag rest needed phase) trivial
      have rest := step.trans (ih rfl)
      by_cases present : sys.node.sharedObj.present draws.buffer tag.toUString = true
      · rw [if_pos present] at rest
        rwa [List.filter_cons_of_neg (by simp [present])]
      · rw [if_neg present, List.append_assoc] at rest
        rwa [List.filter_cons_of_pos (by simp [present])]

theorem answers (draws : Draws platform) {asked : List (Block 32)}
    (phase : self.listener = .answering asked) :
    GoesOn platform k sys self sys {
      self with
      conn := self.push (asked.filterMap fun tag =>
        let objPayload := sys.node.sharedObj.searchByHash [] draws.buffer tag.toUString
        if objPayload = [] then none else some (Node.objectPacket draws objPayload))
      listener := .answering [] } := by
  induction asked generalizing self with
  | nil =>
      rw [List.filterMap_nil, push, List.append_nil, ← phase]
      exact refl
  | cons tag rest ih =>
      have step := single (@Listen.answer platform k sys self draws tag rest _ phase rfl) trivial
      have rest := step.trans (ih rfl)
      simp only [push, List.append_assoc] at rest ⊢
      by_cases found : sys.node.sharedObj.searchByHash [] draws.buffer tag.toUString = []
      · rw [if_pos found, List.nil_append] at rest
        rwa [List.filterMap_cons_none (by simp [found])]
      · rw [if_neg found, List.singleton_append] at rest
        rwa [@List.filterMap_cons_some _ _ _ tag _ (Node.objectPacket draws
          (sys.node.sharedObj.searchByHash [] draws.buffer tag.toUString)) (if_neg found)]

theorem introduces {addresses : List NetworkAddress}
    (phase : self.listener = .introducing addresses) :
    GoesOn platform k sys self { sys with node := addresses.foldl Node.connectAddress sys.node }
      { self with listener := .introducing [] } := by
  induction addresses generalizing self sys with
  | nil =>
      rw [List.foldl_nil, ← phase]
      exact refl
  | cons address rest ih =>
      exact (single (@Listen.introduce platform k sys self 0 _ _ phase) trivial).trans (ih rfl)

/-- The packets with the tags from `i` on. -/
theorem tells (draws : Draws platform) {inventory : List (Block 32)} {fuel i : Nat}
    {conn : Connection} (phase : self.listener = .telling inventory i)
    (sent : Node.sendInventory draws inventory fuel i self.conn = .ok (some conn)) :
    GoesOn platform k sys self sys { self with conn, listener := .accepting } := by
  induction fuel generalizing self i with
  | zero => cases sent
  | succ fuel ih =>
      rw [Node.sendInventory] at sent
      obtain ⟨once, first, sent⟩ := bind_eq_ok.mp sent
      obtain ⟨calls, sends, rfl⟩ := Connection.send_eq_ok first
      have step := (single (@Listen.tell platform k sys self draws _ _ _ phase sends) trivial).trans
        (writes rfl)
      refine step.trans ?_
      split at sent
      next last =>
        cases sent
        rw [if_pos last]
        exact refl
      next more =>
        rw [if_neg more]
        exact ih rfl sent

/-- `processObj`: the object is inserted, announced and handled. -/
theorem processes {draws : Draws platform} {uninit : Uninit} {packet : Packet} {obj : Object}
    {conn : Connection} {sender : SenderPhase} {node : Node} (received : packet.Received)
    (name : cStr packet.command.toUString = objectName)
    (decoded : Object.ofPacket packet = .ok obj) (free : sys.listeners k = .idle)
    (processed : sys.node.processObj draws uninit obj = .ok node) :
    Handles platform k packet sys ⟨conn, .receiving, sender⟩ { sys with node }
      ⟨conn, .receiving, sender⟩ := by
  unfold Node.processObj at processed
  obtain ⟨valid, validated, processed⟩ := bind_eq_ok.mp processed
  cases valid with
  | false =>
      cases processed
      exact ⟨_, _, _, .refuse rfl received name decoded validated, refl⟩
  | true =>
      refine ⟨_, _, _, .object rfl received name decoded validated free, ?_⟩
      simp only [if_true] at processed
      generalize sys.node.share platform draws.buffer obj.messagePayload = shared at processed ⊢
      obtain ⟨present, stored⟩ := shared
      split at processed
      next known =>
        cases processed
        rw [known]
        have step := single (@Listen.leave platform k (sys.proceed k (.inserted 2 obj) stored) _
          ⟨conn, .analysing, sender⟩ obj rfl (.leave (System.proceed_listeners sys k _ _))) trivial
        rw [System.proceed_proceed, System.proceed_idle free] at step
        exact step
      next new =>
        obtain ⟨tags, reports⟩ := Node.handleObj_reports processed
        have announced := single (@Listen.announce platform k
          (sys.proceed k (.inserted present obj) stored) _ ⟨conn, .analysing, sender⟩ obj rfl
          (.announce (System.proceed_listeners sys k _ _) new)) trivial
        have handled := single (@Listen.handle platform k
          (sys.proceed k (.announced obj) (stored.pushInv platform obj.messagePayload)) _
          ⟨conn, .analysing, sender⟩ obj tags rfl
          (.handle (System.proceed_listeners sys k _ _) processed) reports.newInv) trivial
        rw [System.proceed_proceed] at announced
        rw [System.proceed_proceed, System.proceed_idle free] at handled
        exact announced.trans handled

/-- The thread of a new connection sends the version and waits. -/
theorem greets (memory : PacketVersion) (phase : self.listener = .resolving) :
    ∃ sent, GoesOn platform k sys self sys
      ⟨{ self.conn with state := 1, sent }, .receiving, .polling⟩ := by
  obtain ⟨version, greeting⟩ : ∃ version,
      PacketVersion.greeting memory 0 ⟨[127, 0, 0, 1], rfl⟩ 8444 = .ok version := by
    unfold PacketVersion.greeting
    exact ⟨_, PacketVersion.encodeData_eq _ _⟩
  obtain ⟨calls, sends, _⟩ :=
    (@PacketVersion.greeting_sendable platform _ _ _ _ _ greeting).exists_sendCalls
  have up := (single (@Listen.resolve platform k sys self phase) trivial).trans
    (single (.connect rfl greeting sends) trivial)
  exact ⟨_, up.trans (writes rfl)⟩

end GoesOn

theorem Handles.start {k : Nat} {packet : Packet} {sys sys' sys'' : System}
    {self between after : Peer} {spawned : List Peer}
    (step : Listen platform k sys self (.receive packet) sys' between spawned)
    (comes : GoesOn platform k sys' between sys'' after) :
    Handles platform k packet sys self sys'' after :=
  ⟨_, _, _, step, comes⟩

theorem Handles.comes {k : Nat} {packet : Packet} {sys sys' sys'' : System}
    {self between after : Peer} (handles : Handles platform k packet sys self sys' between)
    (more : GoesOn platform k sys' between sys'' after) :
    Handles platform k packet sys self sys'' after := by
  obtain ⟨received, listening, spawned, step, comes⟩ := handles
  exact ⟨received, listening, spawned, step, comes.trans more⟩

end Peer

theorem Node.sampleVerack_received : sampleVerack.packet.Received :=
  ⟨.closed, _, _, _, sampleVerack.getCommand_bytes .closed []⟩

/-- A new node has nothing to tell. -/
theorem Node.inventory_new : Node.new.inventory platform = [] := by
  have empty := (@HashTable.holds_empty UString (hashF []) id).toList_perm.eq_nil
  exact congrArg (List.map _) empty

/-! ## The handlers -/

/-- The listener comes to the end of the handler of `verack`, in front of its last statement. -/
theorem Peer.verack_handles {k : Nat} {draws : Draws platform} {fuel : Nat} {sys : System}
    {conn conn' : Connection} {packet : Packet} {sender : SenderPhase} (received : packet.Received)
    (name : cStr packet.command.toUString = verackName)
    (verack : sys.node.handleVerack draws fuel conn packet = .ok (some conn')) :
    ∃ told, Handles platform k packet sys ⟨conn, .receiving, sender⟩ sys
      ⟨told, .accepting, sender⟩ ∧ conn' = { told with state := 2 } := by
  unfold Node.handleVerack at verack
  obtain ⟨first, send, verack⟩ := bind_eq_ok.mp verack
  obtain ⟨second, sendAddr, verack⟩ := bind_eq_ok.mp verack
  obtain ⟨told, inventory, verack⟩ := bind_eq_ok.mp verack
  obtain ⟨calls, sends, rfl⟩ := Connection.send_eq_ok send
  obtain ⟨more, sendsAddr, rfl⟩ := Connection.send_eq_ok sendAddr
  cases told with
  | none => cases verack
  | some told =>
      cases verack
      refine ⟨told, ⟨_, _, _, .verack rfl received name sends sendsAddr, ?_⟩, rfl⟩
      refine (GoesOn.writes rfl).trans ((GoesOn.writes rfl).trans ?_)
      exact (GoesOn.single (.collect rfl) trivial).trans (GoesOn.tells draws rfl inventory)

/-- `handlePacket` returns what the steps of the listener come to, when the packet is one that
was received and no other thread does anything meanwhile. -/
theorem Peer.handlePacket_handles {k : Nat} {draws : Draws platform} {uninit : Uninit}
    {memory : PacketVersion} {fuel : Nat} {sys : System} {after : Node} {conn conn' : Connection}
    {packet : Packet} {sender : SenderPhase} (received : packet.Received)
    (free : sys.listeners k = .idle)
    (handled : sys.node.handlePacket draws uninit memory fuel conn packet =
      .ok (some (after, conn'))) :
    Handles platform k packet sys ⟨conn, .receiving, sender⟩ { sys with node := after }
      ⟨conn', .receiving, sender⟩ := by
  unfold Node.handlePacket at handled
  dsimp only at handled
  split at handled
  next name =>
    obtain ⟨sent, send, packed⟩ := bind_eq_ok.mp handled
    cases packed
    obtain ⟨calls, sends, rfl⟩ := Connection.send_eq_ok send
    exact ⟨_, _, _, .pong rfl received name sends, GoesOn.writes rfl⟩
  split at handled
  next _ name =>
    obtain ⟨sent, version, packed⟩ := bind_eq_ok.mp handled
    cases packed
    obtain ⟨typed, decoded, packed⟩ := bind_eq_ok.mp version
    cases packed
    exact ⟨_, _, _, .version rfl received name decoded, GoesOn.refl⟩
  split at handled
  next _ _ name =>
    obtain ⟨accepted, verack, packed⟩ := bind_eq_ok.mp handled
    cases accepted with
    | none => cases packed
    | some accepted =>
        cases packed
        obtain ⟨told, handles, rfl⟩ := @verack_handles platform k draws fuel sys conn conn' packet
          sender received name verack
        exact handles.comes (GoesOn.single (.accept rfl) trivial)
  split at handled
  next _ _ _ name =>
    obtain ⟨node, addr, packed⟩ := bind_eq_ok.mp handled
    cases packed
    obtain ⟨typed, decoded, packed⟩ := bind_eq_ok.mp addr
    cases packed
    refine ⟨_, _, _, .addr rfl received name decoded, ?_⟩
    exact (GoesOn.introduces rfl).trans (GoesOn.single (.introduced rfl) trivial)
  split at handled
  next _ _ _ _ name =>
    obtain ⟨asked, inv, packed⟩ := bind_eq_ok.mp handled
    cases packed
    obtain ⟨typed, decoded, packed⟩ := bind_eq_ok.mp inv
    refine ⟨_, _, _, .inv rfl received name decoded, ?_⟩
    refine (GoesOn.checks draws rfl).trans ?_
    have request (needed : List (Block 32)) :=
      GoesOn.single (@Peer.Listen.request platform k sys ⟨conn, .checking [] needed, sender⟩
        draws needed rfl) trivial
    rw [List.nil_append]
    dsimp only at packed
    split at packed
    next none =>
      cases packed
      have asked := request []
      rw [if_pos rfl, push, List.append_nil] at asked
      rw [none]
      exact asked
    next some =>
      cases packed
      have asked := request (typed.inventory.filter fun tag =>
        !sys.node.sharedObj.present draws.buffer tag.toUString)
      rw [if_neg some] at asked
      exact asked
  split at handled
  next _ _ _ _ _ name =>
    obtain ⟨answered, getdata, packed⟩ := bind_eq_ok.mp handled
    cases packed
    obtain ⟨typed, decoded, packed⟩ := bind_eq_ok.mp getdata
    cases packed
    refine ⟨_, _, _, .getdata rfl received name decoded, ?_⟩
    exact (GoesOn.answers draws rfl).trans (GoesOn.single (.answered rfl) trivial)
  split at handled
  next _ _ _ _ _ _ name =>
    obtain ⟨node, object, packed⟩ := bind_eq_ok.mp handled
    cases packed
    obtain ⟨obj, decoded, processed⟩ := bind_eq_ok.mp object
    exact GoesOn.processes received name decoded free processed
  next pong version verack addr inv getdata object =>
    cases handled
    refine ⟨_, _, _, .other rfl received ?_, GoesOn.refl⟩
    simp [pong, version, verack, addr, inv, getdata, object]

namespace Running

/-- Steps of one listener alone are steps of the node. -/
theorem run_of_alone {k : Nat} {self : Running} {peer after : Peer} {sys : System}
    {acts : List Peer.ListenerAct} {spawned : List Peer} (here : self.peers[k]? = some peer)
    (free : ¬self.Locked) (alone : Peer.Alone platform k self.sys peer acts sys after spawned) :
    ∃ trace, Run (Step platform) self trace
        { self with sys, peers := self.peers.set k after ++ spawned } ∧
      ∀ taken ∈ trace, ∃ act ∈ acts, taken.2 = .listen k act := by
  have inside := (List.getElem?_eq_some_iff.mp here).1
  induction alone with
  | nil =>
      refine ⟨[], ?_, List.forall_mem_nil _⟩
      obtain ⟨_, same⟩ := List.getElem?_eq_some_iff.mp here
      rw [List.append_nil, ← same, List.set_getElem_self]
      exact .nil
  | @next acts act sys' sys'' between after spawned more _ step ih =>
      obtain ⟨trace, run, labels⟩ := ih
      have there : (self.peers.set k between ++ spawned)[k]? = some between := by
        rw [List.getElem?_append_left (by rwa [List.length_set]), List.getElem?_set_self inside]
      have moved := run.next (.listen there step fun _ => free)
      simp only [List.set_append_left _ _ (show k < (self.peers.set k between).length by
        rwa [List.length_set]), List.set_set, List.append_assoc] at moved
      refine ⟨_, moved, ?_⟩
      intro taken member
      rcases List.mem_append.mp member with earlier | last
      · obtain ⟨named, inside, same⟩ := labels taken earlier
        exact ⟨named, List.mem_append_left _ inside, same⟩
      · rw [List.mem_singleton.mp last]
        exact ⟨act, List.mem_append_right _ (List.mem_singleton_self act), rfl⟩

/-- What the run of one listener comes to. -/
structure Follows (k : Nat) (running : Running) (sys : System) (peer : Peer)
    (trace : List (Running × Label)) (reached : Running) : Prop where
  sys : reached.sys = sys
  inv : reached.inv = running.inv
  packets : reached.packets = running.packets
  on : reached.running = running.running
  here : reached.peers[k]? = some peer
  plain : ∀ taken ∈ trace, ∃ act, taken.2 = .listen k act ∧ act.Plain

theorem run_of_comes {k : Nat} {self : Running} {peer after : Peer} {sys : System}
    (here : self.peers[k]? = some peer) (free : ¬self.Locked)
    (comes : Peer.GoesOn platform k self.sys peer sys after) :
    ∃ trace reached, Run (Step platform) self trace reached ∧
      Follows k self sys after trace reached := by
  obtain ⟨acts, spawned, alone, plain⟩ := comes
  obtain ⟨trace, run, labels⟩ := run_of_alone here free alone
  have inside := (List.getElem?_eq_some_iff.mp here).1
  refine ⟨trace, _, run, rfl, rfl, rfl, rfl, ?_, ?_⟩
  · rw [List.getElem?_append_left (by rwa [List.length_set]), List.getElem?_set_self inside]
  · intro taken member
    obtain ⟨act, named, same⟩ := labels taken member
    exact ⟨act, same, plain act named⟩

theorem run_of_handles {k : Nat} {self : Running} {packet : Packet} {peer after : Peer}
    {sys : System} (here : self.peers[k]? = some peer) (free : ¬self.Locked)
    (handles : Peer.Handles platform k packet self.sys peer sys after) :
    ∃ trace reached,
      Run (Step platform) self ((self, .listen k (.receive packet)) :: trace) reached ∧
      Follows k self sys after trace reached := by
  obtain ⟨received, between, spawned, step, comes⟩ := handles
  have inside := (List.getElem?_eq_some_iff.mp here).1
  have there : (self.peers.set k between ++ spawned)[k]? = some between := by
    rw [List.getElem?_append_left (by rwa [List.length_set]), List.getElem?_set_self inside]
  obtain ⟨trace, reached, run, follows⟩ := @run_of_comes platform k
    { self with sys := received, peers := self.peers.set k between ++ spawned } _ _ _ there free
    comes
  exact ⟨trace, reached, (Run.single (.listen here step fun _ => free)).append run, follows.sys,
    follows.inv, follows.packets, follows.on, follows.here, follows.plain⟩

/-- A round of `Listener`, as a function, is a run of the node in which this thread receives the
packet, and then only this thread moves. -/
theorem run_of_handlePacket {k : Nat} {draws : Draws platform} {uninit : Uninit}
    {memory : PacketVersion} {fuel : Nat} {self : Running} {after : Node} {peer : Peer}
    {conn : Connection} {packet : Packet} (received : packet.Received)
    (here : self.peers[k]? = some peer) (waiting : peer.listener = .receiving)
    (idle : self.sys.listeners k = .idle) (free : ¬self.Locked)
    (handled : self.sys.node.handlePacket draws uninit memory fuel peer.conn packet =
      .ok (some (after, conn))) :
    ∃ trace reached,
      Run (Step platform) self ((self, .listen k (.receive packet)) :: trace) reached ∧
      (∀ taken ∈ trace, ∃ act, taken.2 = .listen k act) ∧ reached.sys = self.withNode after ∧
      reached.peers[k]? = some { peer with conn } := by
  have handles := @Peer.handlePacket_handles platform k draws uninit memory fuel
    self.sys after peer.conn conn packet peer.sender received idle handled
  obtain ⟨version, listener, sender⟩ := peer
  simp only at waiting
  subst waiting
  obtain ⟨trace, reached, run, follows⟩ := run_of_handles here free handles
  refine ⟨trace, reached, run, fun taken member => ?_, follows.sys, follows.here⟩
  obtain ⟨act, same, _⟩ := follows.plain taken member
  exact ⟨act, same⟩

/-- The acknowledgement of a peer of a new node. -/
theorem run_of_handlePacket_sample : ∃ first trace reached conn,
    first = { start Node.new with peers := [⟨Node.sampleConnection, .receiving, .polling⟩] } ∧
    Run (Step Platform.sample) first
      ((first, .listen 0 (.receive Node.sampleVerack.packet)) :: trace) reached ∧
    (∀ taken ∈ trace, ∃ act, taken.2 = .listen 0 act) ∧ reached.sys = .idle Node.new ∧
    reached.peers[0]? = some ⟨conn, .receiving, .polling⟩ ∧ conn.state = 2 := by
  obtain ⟨_, handled, _, told, _, rfl, _⟩ := @Node.handleVerack_few Platform.sample Draws.sample
    Node.sampleConnection Node.new Node.sampleVerack.packet Node.sampleVerack.length_toInt
    (by rw [Node.inventory_new]; exact Nat.zero_le _)
  have verack : Node.new.handlePacket Draws.sample ⟨0, 0, 0, 0⟩ Node.sampleVersion 1
      Node.sampleConnection Node.sampleVerack.packet =
        .ok (some (Node.new, { told with state := 2 })) := by
    have name : cStr Node.sampleVerack.packet.command.toUString = verackName :=
      Node.sampleVerack.cStr_command
    rw [Node.handlePacket, name]
    exact congrArg (fun result => result >>= fun after =>
      pure (after.map fun conn => (Node.new, conn))) (handled 0)
  let first := { start Node.new with peers := [⟨Node.sampleConnection, .receiving, .polling⟩] }
  have free : ¬first.Locked := by
    rintro ⟨packet, i, locked⟩
    cases locked
  obtain ⟨trace, reached, run, labels, sys, here⟩ := @run_of_handlePacket Platform.sample 0 _ _ _ _
    first _ _ _ _ Node.sampleVerack_received rfl rfl rfl free verack
  exact ⟨first, trace, reached, _, rfl, run, labels, sys, here, rfl⟩

/-! ## Sessions -/

/-- A connection is added, or its listener goes on with what it is at. -/
def Label.Plain (k : Nat) : Label → Prop
  | .started | .connect => True
  | .listen j act => j = k ∧ act.Plain
  | _ => False

theorem Label.Plain.of_follows {k : Nat} {running reached : Running} {sys : System} {peer : Peer}
    {trace : List (Running × Label)} (follows : Follows k running sys peer trace reached) :
    ∀ taken ∈ trace, taken.2.Plain k := by
  intro taken member
  obtain ⟨act, same, plain⟩ := follows.plain taken member
  rw [same]
  exact ⟨rfl, plain⟩

/-- A connection that is added gets as far as waiting for the first packet. -/
theorem run_connect {self : Running} (free : ¬self.Locked) (memory : PacketVersion)
    (version : Int32) (ip port : UString) : ∃ trace reached sent,
    Run (Step platform) self trace reached ∧ (∀ taken ∈ trace, taken.2.Plain self.peers.length) ∧
      reached.sys = self.withNode
        { self.sys.node with nodes := self.sys.node.nodes ++ [(ip, port)] } ∧
      reached.inv = self.inv ∧ reached.packets = self.packets ∧
      reached.running = self.running ∧ reached.peers[self.peers.length]? =
        some ⟨⟨version, 1, [], sent⟩, .receiving, .polling⟩ := by
  have added := Run.single (@Step.connect platform self version ip port free)
  generalize self.withNode { self.sys.node with nodes := self.sys.node.nodes ++ [(ip, port)] } =
    sys at added ⊢
  obtain ⟨sent, comes⟩ := @Peer.GoesOn.greets platform self.peers.length sys (Peer.new version)
    memory rfl
  have here : (self.peers ++ [Peer.new version])[self.peers.length]? = some (Peer.new version) := by
    simp
  obtain ⟨trace, reached, run, follows⟩ := @run_of_comes platform _
    { self with sys, peers := self.peers ++ [Peer.new version] } _ _ _ here free comes
  refine ⟨_, reached, sent, added.append run, ?_, follows.sys, follows.inv, follows.packets,
    follows.on, follows.here⟩
  intro taken member
  rcases List.mem_append.mp member with first | later
  · rw [List.mem_singleton.mp first]
    trivial
  · exact Label.Plain.of_follows follows taken later

/-- Sending leaves the queue alone. -/
theorem sendAll_packets {conn after : Connection} {packets : List Packet}
    (sent : conn.sendAll packets = .ok after) : after.packets = conn.packets := by
  induction packets using List.reverseRecOn generalizing after with
  | nil =>
      cases sent
      rfl
  | append_singleton packets packet ih =>
      rw [Connection.sendAll_concat] at sent
      obtain ⟨between, before, sent⟩ := bind_eq_ok.mp sent
      obtain ⟨bytes, _, last⟩ := bind_eq_ok.mp sent
      cases last
      exact show between.packets = conn.packets from ih before

/-- A peer that acknowledges the version is accepted. -/
theorem run_verack {k : Nat} {self : Running} {conn : Connection} {sender : SenderPhase}
    {packet : Packet} (draws : Draws platform) (received : packet.Received)
    (name : cStr packet.command.toUString = verackName)
    (few : (self.sys.node.inventory platform).length ≤ 50000)
    (here : self.peers[k]? = some ⟨conn, .receiving, sender⟩) (free : ¬self.Locked) :
    ∃ trace reached after, Run (Step platform) self
        ((self, .listen k (.receive packet)) :: trace) reached ∧
      (∀ taken ∈ trace, taken.2.Plain k) ∧ (∃ taken ∈ trace, taken.2 = .listen k .accept) ∧
      reached.sys = self.sys ∧ reached.inv = self.inv ∧ reached.packets = self.packets ∧
      reached.running = self.running ∧
      reached.peers[k]? = some ⟨after, .receiving, sender⟩ ∧ after.state = 2 ∧
      after.packets = conn.packets := by
  have size := (Packet.Sendable.received received (by rw [name]; decide)).size
  obtain ⟨after, handled, invs, sent, sends, same, _⟩ :=
    @Node.handleVerack_few _ draws conn self.sys.node _ size few
  have kept : after.packets = conn.packets := by rw [same, ← sendAll_packets sends]
  obtain ⟨told, handles, rfl⟩ := @Peer.verack_handles platform k draws _ self.sys conn _ packet
    sender received name (handled 0)
  obtain ⟨trace, reached, run, follows⟩ := run_of_handles here free handles
  have inside := (List.getElem?_eq_some_iff.mp follows.here).1
  have accepted := @Step.listen platform reached k _ _ _ _ _ follows.here (.accept rfl)
    (fun spawned => absurd rfl spawned)
  refine ⟨_, _, { told with state := 2 }, run.next accepted, ?_,
    ⟨_, List.mem_append_right _ (List.mem_singleton_self _), rfl⟩, follows.sys, follows.inv,
    follows.packets, follows.on, ?_, rfl, kept⟩
  · intro taken member
    rcases List.mem_append.mp member with earlier | last
    · exact Label.Plain.of_follows follows taken earlier
    · rw [List.mem_singleton.mp last]
      exact ⟨rfl, trivial⟩
  · rw [List.append_nil, List.getElem?_set_self inside]

/-- What a run comes to in which a peer connects to a node and acknowledges the version. -/
structure Session (node : Node) (verack : Packet) (conn : Connection)
    (trace : List (Running × Label)) (reached : Running) : Prop where
  labels : ∀ taken ∈ trace, taken.2.Plain 0 ∨ taken.2 = .listen 0 (.receive verack) ∧
    ∀ peer, taken.1.peers[0]? = some peer → peer.conn.state = 1
  accepts : ∃ taken ∈ trace, taken.2 = .listen 0 .accept
  sys : reached.sys = .idle { node with nodes := node.nodes ++ [([], [])] }
  inv : reached.inv = .gathering []
  packets : reached.packets = .waiting
  on : reached.running = true
  here : reached.peers[0]? = some ⟨conn, .receiving, .polling⟩
  state : conn.state = 2
  queue : conn.packets = []

theorem Session.free {node : Node} {verack : Packet} {conn : Connection}
    {trace : List (Running × Label)} {reached : Running}
    (session : Session node verack conn trace reached) : ¬reached.Locked := by
  rintro ⟨packet, i, locked⟩
  cases locked.symm.trans session.packets

theorem Session.short {node : Node} {verack : Packet} {conn : Connection}
    {trace : List (Running × Label)} {reached : Running}
    (session : Session node verack conn trace reached) : ∀ taken ∈ trace, taken.2.Short := by
  intro taken member
  rcases session.labels taken member with plain | ⟨same, _⟩
  · cases label : taken.2 with
    | flush =>
        rw [label] at plain
        exact plain.elim
    | _ => trivial
  · rw [same]
    trivial

theorem run_session (node : Node) (draws : Draws platform) (memory : PacketVersion)
    {packet : Packet} (received : packet.Received)
    (name : cStr packet.command.toUString = verackName)
    (few : (node.inventory platform).length ≤ 50000) : ∃ trace reached conn,
    Run (Step platform) (start node) trace reached ∧ Session node packet conn trace reached := by
  have started := Run.single (@Step.started platform (start node))
  obtain ⟨trace, between, sent, run, plain, sys, inv, packets, on, here⟩ :=
    @run_connect platform { start node with running := true } nofun memory 0 [] []
  have free : ¬between.Locked := by
    rintro ⟨packet, i, locked⟩
    cases locked.symm.trans packets
  obtain ⟨more, reached, conn, later, plainLater, ⟨taken, accepts, named⟩, same, empty, waiting,
    still, there, accepted, queue⟩ :=
    run_verack draws received name (by rw [sys]; exact few) here free
  refine ⟨_, reached, conn, (started.append run).append later, ?_, ?_, same.trans sys,
    empty.trans inv, waiting.trans packets, still.trans on, there, accepted, queue⟩
  · intro taken member
    rcases List.mem_append.mp member with first | second
    · rcases List.mem_cons.mp first with rfl | first
      · exact .inl trivial
      · exact .inl (plain taken first)
    · rcases List.mem_cons.mp second with rfl | second
      · refine .inr ⟨rfl, ?_⟩
        intro peer found
        cases here.symm.trans found
        rfl
      · exact .inl (plainLater taken second)
  · exact ⟨taken, List.mem_append_right _ (List.mem_cons_of_mem _ accepts), named⟩

end Running

/-! ## A node with an object -/

namespace Node

/-- A peer that sends the tags of the sample under some name. -/
theorem sampleTags_received {name : UString} (name_length : name.length ≤ 11)
    (name_nonzero : ∀ byte ∈ name, byte ≠ 0) (few : sampleInventory.length ≤ 50000) :
    (sampleTags name name_length name_nonzero sampleInventory few).packet.Received :=
  ⟨.closed, _, _, _, (sampleTags name name_length name_nonzero sampleInventory few).getCommand_bytes
    .closed []⟩

/-- A new node that was sent the sample object. -/
def sampleStored : Node :=
  (Node.new.share Platform.sample [] Object.sample.messagePayload).2.pushInv Platform.sample
    Object.sample.messagePayload

theorem sampleStored_stored : sampleStored.sharedObj.Stored Object.sample.messagePayload := by
  obtain ⟨cur, member, same⟩ := HashTable.exists_mem_insert Node.new.sharedObj []
    Object.sample.messagePayload
    (inventoryHash Platform.sample Object.sample.messagePayload).toUString
  exact ⟨_, cur, member, same⟩

theorem sampleStored_inventory : sampleStored.inventory Platform.sample =
    [inventoryHash Platform.sample Object.sample.messagePayload] := by
  have listed : sampleStored.sharedObj.toList = [⟨(inventoryHash Platform.sample
      Object.sample.messagePayload).toUString, Object.sample.messagePayload⟩] :=
    HashTable.toList_insert_empty _ _ _
  rw [inventory, listed, List.map_singleton, Platform.cBytes_block]

theorem sampleStored_few : (sampleStored.inventory Platform.sample).length ≤ 50000 := by
  rw [sampleStored_inventory]
  decide

/-- It is reached by the steps of a listener. -/
theorem sampleStored_reachable : System.Reachable Platform.sample (.idle sampleStored) := by
  have new : (Node.new.share Platform.sample [] Object.sample.messagePayload).1 ≠ 2 := by
    decide +kernel
  have quiet : sampleStored.handleObj Draws.sample ⟨0, 0, 0, 0⟩ Object.sample =
      .ok sampleStored := by
    unfold handleObj
    rfl
  have inserted := System.Reachable.step .start
    (@System.Step.insert Platform.sample (.idle Node.new) 0 Draws.sample _ _ rfl
      Object.ofPacket_sample Object.valid_sample)
  have announced := inserted.step (.announce (System.proceed_listeners _ _ _ _) new)
  have handled := announced.step
    (@System.Step.handle Platform.sample _ 0 Draws.sample ⟨0, 0, 0, 0⟩ _ _
      (System.proceed_listeners _ _ _ _) quiet)
  rw [System.proceed_proceed, System.proceed_proceed, System.proceed_idle rfl] at handled
  exact handled

end Node

/-- The listener of an accepted peer receives another packet. -/
theorem Running.run_sampleStored {packet : Packet} {after : System → Connection → Peer}
    (handles : ∀ sys conn, Peer.Handles Platform.sample 0 packet sys
      ⟨conn, .receiving, .polling⟩ sys (after sys conn)) : ∃ trace reached sys conn,
    Run (Step Platform.sample) (start Node.sampleStored) trace reached ∧
      sys.node.sharedObj = Node.sampleStored.sharedObj ∧
      reached.peers[0]? = some (after sys conn) := by
  obtain ⟨trace, between, conn, run, session⟩ :=
    run_session Node.sampleStored Draws.sample Node.sampleVersion Node.sampleVerack_received
      Node.sampleVerack.cStr_command Node.sampleStored_few
  obtain ⟨more, reached, later, follows⟩ :=
    run_of_handles session.here session.free (handles between.sys conn)
  exact ⟨_, reached, _, conn, run.append later, by rw [session.sys]; rfl, follows.here⟩

end BitMRC

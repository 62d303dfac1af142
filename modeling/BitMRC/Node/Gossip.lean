import BitMRC.Node.Sending

/-!
# The way of an announcement

A tag goes through five queues until a peer is told of it: `new_inv`, the packet that
`listen_inv` gathers, `new_packets`, the hands of `listen_packets` and the queue of the
connection.  Each of them is a stage that conserves what it is fed, whatever the other threads do
meanwhile, and so is the whole way.
-/

namespace BitMRC

open Foundation UString

variable {platform : Platform}

namespace Peer

/-- The tags that a step of the listener announces. -/
def ListenerAct.announced (platform : Platform) : ListenerAct → List (Block 32)
  | .announce obj => [Node.inventoryHash platform obj.messagePayload]
  | .handle _ tags => tags
  | _ => []

theorem Listen.newInv {k : Nat} {sys sys' : System} {self after : Peer} {act : ListenerAct}
    {spawned : List Peer} (step : Listen platform k sys self act sys' after spawned) :
    sys'.node.newInv = sys.node.newInv ++ act.announced platform := by
  cases step with
  | @introduce _ _ address =>
      obtain ⟨nodes, same⟩ := sys.node.connectAddress_eq address
      rw [same]
      exact (List.append_nil _).symm
  | leave _ step =>
      cases step
      exact (List.append_nil _).symm
  | announce _ step =>
      cases step
      rfl
  | handle _ _ announced => exact announced
  | _ => exact (List.append_nil _).symm

/-- An address packet that is passed on names no tags. -/
theorem Listen.newPackets {k : Nat} {sys sys' : System} {self after : Peer} {act : ListenerAct}
    {spawned : List Peer} (step : Listen platform k sys self act sys' after spawned) :
    sys'.node.newPackets.flatMap (Packet.tagsOf invName) =
      sys.node.newPackets.flatMap (Packet.tagsOf invName) := by
  rcases step.newPackets_cases with same | ⟨packet, _, _, name, passed⟩
  · rw [same]
  · have different : cStr packet.command.toUString ≠ invName := by
      rw [name]
      decide
    have none : (Node.setChecksumLenghtMagic platform packet).tagsOf invName = [] :=
      Packet.tagsOf_of_name different
    rw [passed, List.flatMap_append, List.flatMap_singleton, none, List.append_nil]

end Peer

namespace Running

/-! ## The stages in front of the connections -/

/-- The tags that `new_inv` takes up. -/
def Label.announced (platform : Platform) : Label → List (Block 32)
  | .operate tags => tags
  | .pow act => act.announced platform
  | .listen _ act => act.announced platform
  | _ => []

/-- The tag that `listen_inv` takes from `new_inv`. -/
def Label.gathered : Label → List (Block 32)
  | .gather tag => [tag]
  | _ => []

/-- The tags in the `inv` that `listen_inv` sends. -/
def Label.flushed : Label → List (Block 32)
  | .flush inventory => inventory
  | _ => []

/-- The tags that `listen_packets` gets. -/
def Label.popped : Label → List (Block 32)
  | .pop packet => packet.tagsOf invName
  | _ => []

/-- The tags that it hands to connection `k`. -/
def Label.handed (k : Nat) : Label → List (Block 32)
  | .push packet i => if i = k then packet.tagsOf invName else []
  | _ => []

/-- The tags in the packets that `Sender` takes for the peer of connection `k`.  It sends them at
once; when that fails, the packet is lost with the connection. -/
def Label.told (k : Nat) : Label → List (Block 32) :=
  Label.on k (Peer.Act.sent (Packet.tagsOf invName))

/-- What `listen_inv` holds. -/
def gathering (self : Running) : List (Block 32) :=
  match self.inv with
  | .gathering inventory => inventory
  | .flushing inventory => inventory
  | .ended => []

/-- What `listen_packets` still has to hand to connection `k`. -/
def handing (k : Nat) (self : Running) : List (Block 32) :=
  match self.packets with
  | .waiting => []
  | .popped packet => packet.tagsOf invName
  | .pushing packet i => if i ≤ k then packet.tagsOf invName else []
  | .ended => []

/-- The tags on their way to the peer of connection `k`, in front the next one. -/
def pending (k : Nat) (self : Running) : List (Block 32) :=
  (self.queue k).flatMap (Packet.tagsOf invName) ++ (self.handing k ++
    (self.sys.node.newPackets.flatMap (Packet.tagsOf invName) ++
      (self.gathering ++ self.sys.node.newInv)))

theorem newInv_conserves : Conserves (Step platform) (fun self => self.sys.node.newInv)
    (fun _ label => label.announced platform) (fun _ label => label.gathered) := by
  intro self label after step
  cases step with
  | gather phase queued =>
      simp only [Label.gathered, Label.announced, withNode, queued, List.append_nil]
      rfl
  | flush =>
      simp only [Label.gathered, Label.announced, withNode, List.append_nil, List.nil_append]
      split
      next => rfl
      next => rfl
  | operate _ _ _ announced => exact announced
  | pow step => exact step.powStays.newInv
  | listen _ step => exact step.newInv
  | _ => exact (List.append_nil _).symm

theorem gathering_conserves : Conserves (Step platform) gathering
    (fun _ label => label.gathered) (fun _ label => label.flushed) := by
  intro self label after step
  cases step with
  | gather phase => simp only [gathering, phase, Label.flushed, Label.gathered, List.nil_append]
  | finish phase =>
      simp only [gathering, phase, Label.flushed, Label.gathered, List.nil_append, List.append_nil]
  | flush phase => simp only [gathering, phase, Label.flushed, Label.gathered]
  | endInv phase =>
      simp only [gathering, phase, Label.flushed, Label.gathered, List.append_nil]
  | _ => exact (List.append_nil _).symm

theorem newPackets_conserves :
    Conserves (fun self label after => Label.Short label ∧ Step platform self label after)
      (fun self => self.sys.node.newPackets.flatMap (Packet.tagsOf invName))
      (fun _ label => label.flushed) (fun _ label => label.popped) := by
  rintro self label after ⟨short, step⟩
  cases step with
  | @flush draws inventory phase =>
      simp only [Label.popped, Label.flushed, withNode, List.nil_append]
      split
      next empty => rw [empty, List.append_nil]
      next =>
        rw [Node.send, List.flatMap_append, List.flatMap_singleton]
        exact congrArg _ (@Node.tagsOf_invPacket _ draws inventory short)
  | pop phase queued =>
      simp only [Label.popped, Label.flushed, withNode, queued, List.append_nil]
      rw [List.flatMap_cons]
  | operate _ packets =>
      simp only [Label.popped, Label.flushed, withNode, packets]
      exact (List.append_nil _).symm
  | pow step =>
      simp only [Label.popped, Label.flushed, step.powStays.newPackets]
      exact (List.append_nil _).symm
  | listen _ step =>
      simp only [Label.popped, Label.flushed, List.append_nil, List.nil_append]
      exact step.newPackets
  | _ => exact (List.append_nil _).symm

/-- The lock keeps the list of connections as long as it was. -/
theorem handing_conserves (k : Nat) :
    Conserves (fun self label after => k < self.peers.length ∧ Step platform self label after)
      (handing k) (fun _ label => label.popped) (fun _ label => label.handed k) := by
  rintro self label after ⟨inside, step⟩
  cases step with
  | pop phase => simp only [handing, phase, Label.popped, Label.handed, List.nil_append]
  | lock phase =>
      simp only [handing, phase, Label.popped, Label.handed, List.nil_append, List.append_nil]
      exact if_pos (Nat.zero_le k)
  | @push packet i peer phase here =>
      simp only [handing, phase, Label.popped, Label.handed, List.append_nil]
      rcases Nat.lt_trichotomy i k with before | rfl | behind
      · rw [if_neg (by omega), if_pos (by omega), if_pos (by omega), List.nil_append]
      · rw [if_pos rfl, if_neg (by omega), if_pos (by omega), List.append_nil]
      · rw [if_neg (by omega), if_neg (by omega), if_neg (by omega), List.nil_append]
  | @unlock packet i phase last =>
      simp only [handing, phase, Label.popped, Label.handed, List.append_nil]
      exact (if_neg (by omega)).symm
  | endPackets phase =>
      simp only [handing, phase, Label.popped, Label.handed, List.append_nil]
  | _ => exact (List.append_nil _).symm

/-! ## The whole way -/

/-- Steps while connection `k` is there. -/
def Watched (platform : Platform) (k : Nat) (self : Running) (label : Label) (after : Running) :
    Prop :=
  k < self.peers.length ∧ label.Short ∧ Step platform self label after

theorem pending_conserves (k : Nat) : Conserves (Watched platform k) (pending k)
    (fun _ label => label.announced platform) (fun _ label => label.told k) := by
  have gathered := (@newInv_conserves platform).comp gathering_conserves
  have sent := (gathered.mono fun _ _ _ moved => moved.2).comp newPackets_conserves
  have watched : Conserves (Watched platform k) (handing k) (fun _ label => label.popped)
      (fun _ label => label.handed k) :=
    (handing_conserves k).mono fun _ _ _ moved => ⟨moved.1, moved.2.2⟩
  have handed := Conserves.comp (sent.mono fun _ _ _ moved => moved.2) watched
  refine handed.comp fun self label after moved => ?_
  have stage := @queue_conserves platform _ k (fun _ => True) (Packet.tagsOf invName)
    (fun _ => []) (fun _ => [])
    (fun draws self needed _ _ => Packet.tagsOf_of_name (by
      rw [Node.getdata_name]
      decide))
    (fun draws objPayload => Packet.tagsOf_of_name (by
      rw [Node.objectPacket_name]
      decide))
  have last := stage ⟨fun _ _ _ _ => trivial, moved.2.2⟩
  have queued : label.on k (Peer.Act.queued (Packet.tagsOf invName) (fun _ => []) fun _ => []) =
      label.handed k := by
    cases label with
    | push packet i =>
        simp only [Label.on, Label.act?, Label.handed]
        split
        next => rfl
        next => rfl
    | send j act =>
        simp only [Label.on, Label.act?, Label.handed]
        split
        next => rfl
        next => rfl
    | listen j act =>
        simp only [Label.on, Label.act?, Label.handed]
        split
        next => cases act <;> simp [Peer.Act.queued]
        next => rfl
    | _ => rfl
  dsimp only at last ⊢
  rw [← queued]
  exact last

/-- Whatever the threads do in between, the packets that the sender of a connection has taken carry
exactly the tags that were announced, each as often and in the order in which it was, except for
those that are still on their way to it. -/
theorem announcements_conserved {k : Nat} {first after : Running} {trace : List (Running × Label)}
    (known : k < first.peers.length) (run : Run (Step platform) first trace after)
    (short : ∀ taken ∈ trace, Label.Short taken.2) :
    along (fun _ label => label.told k) trace ++ after.pending k =
      first.pending k ++ along (fun _ label => label.announced platform) trace := by
  obtain ⟨restricted, _⟩ := @Run.restrict _ _ _ _ _ _ (fun _ label => Label.Short label)
    (fun self => k < self.peers.length) known
    (fun _ _ _ inside _ step => Nat.lt_of_lt_of_le inside step.peers_length) run short
  exact (pending_conserves k).run restricted

/-- One tag in `new_inv`, all the way to a peer that was accepted. -/
theorem announcements_conserved_sample : ∃ trace after,
    Run (Step Platform.sample) {
      start { Node.new with newInv := [Platform.fit 32 []] } with
      peers := [⟨⟨0, 2, [], []⟩, .receiving, .polling⟩]
      running := true } trace after ∧
    along (fun _ label => label.told 0) trace = [Platform.fit 32 []] ∧
    along (fun _ label => label.told 0) trace ++ after.pending 0 =
      [Platform.fit 32 []] ++ along (fun _ label => label.announced Platform.sample) trace := by
  let first := {
    start { Node.new with newInv := [Platform.fit 32 []] } with
    peers := [⟨⟨0, 2, [], []⟩, .receiving, .polling⟩]
    running := true }
  let packet := Node.invPacket Draws.sample [Platform.fit 32 []]
  have one : [Platform.fit 32 []].length * 32 + 9 < intLimit := by decide
  have gathered := Run.single (@Step.gather Platform.sample first _ _ _ rfl rfl fun _ => rfl)
  obtain ⟨trace, reached, flushed, short, untold, waiting, queued, on, here⟩ : ∃ trace reached,
      Run (Step Platform.sample) first trace reached ∧ (∀ taken ∈ trace, Label.Short taken.2) ∧
      along (fun _ label => label.told 0) trace = [] ∧ reached.packets = .waiting ∧
      reached.sys.node.newPackets = [packet] ∧ reached.running = true ∧
      reached.peers[0]? = some ⟨⟨0, 2, [], []⟩, .receiving, .polling⟩ := by
    refine ⟨_, _, (gathered.next (.finish rfl rfl fun _ => rfl)).next
      (@Step.flush _ _ Draws.sample _ rfl), ?_, rfl, rfl, rfl, rfl, rfl⟩
    simp only [List.forall_mem_append, List.forall_mem_singleton]
    exact ⟨⟨trivial, trivial⟩, one⟩
  obtain ⟨before, state, after, calls, handed, labels, more, _⟩ :=
    run_handed waiting queued on here rfl rfl (Node.invPacket_sendable one)
  have run := flushed.append handed
  have quiet : along (fun _ label => label.told 0) before = [] := by
    rw [along, ← List.flatMap_map Prod.snd (fun label : Label => label.told 0), labels]
    rfl
  refine ⟨_, after, run, ?_, announcements_conserved Nat.one_pos run ?_⟩
  · rw [along_append, along_append, untold, quiet, along_singleton]
    exact Node.tagsOf_invPacket one
  · simp only [List.forall_mem_append, List.forall_mem_singleton]
    exact ⟨short, more, trivial⟩

end Running

end BitMRC

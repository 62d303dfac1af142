import BitMRC.Node.Handlers

/-!
# Requests and answers

A peer that sends `getdata` is answered with the objects that are shared when the listener
comes to their tags, and a peer that sends `inv` is asked for what is missing then.  Between two
tags the other threads may store objects and queue packets; still each tag is looked
up once, and the packets leave in the order of the tags.
-/

namespace BitMRC

open Foundation UString

variable {platform : Platform} {α : Type}

/-! ## What the thread of a listener works off -/

namespace Packet

/-- The payload of a packet that carries an object. -/
def objectsOf (packet : Packet) : List UString :=
  if cStr packet.command.toUString = objectName then [packet.messagePayload] else []

theorem tagsOf_of_other {name other : UString} {packet : Packet}
    (same : cStr packet.command.toUString = other) (different : other ≠ name) :
    packet.tagsOf name = [] :=
  tagsOf_of_name (by rwa [same])

theorem objectsOf_of_other {other : UString} {packet : Packet}
    (same : cStr packet.command.toUString = other) (different : other ≠ objectName) :
    packet.objectsOf = [] :=
  if_neg (by rwa [same])

end Packet

namespace Peer

/-- The tags of a `getdata` that are not looked up yet. -/
def asked (self : Peer) : List (Block 32) :=
  match self.listener with
  | .answering asked => asked
  | _ => []

/-- The tags of an `inv` that are not checked yet. -/
def offered (self : Peer) : List (Block 32) :=
  match self.listener with
  | .checking offered _ => offered
  | _ => []

/-- The tags that are going to be asked for. -/
def needed (self : Peer) : List (Block 32) :=
  match self.listener with
  | .checking _ needed => needed
  | _ => []

/-- The tags in the packets of a name that are received. -/
def Act.received (name : UString) : Act → List (Block 32)
  | .listen (.receive packet) => packet.tagsOf name
  | _ => []

/-- Tags that are looked up, with what is found. -/
def Act.lookups : Act → List (Block 32 × UString)
  | .listen (.answer tag objPayload) => [(tag, objPayload)]
  | _ => []

/-- Tags that are checked, with whether a shared object has them. -/
def Act.checks : Act → List (Block 32 × Bool)
  | .listen (.check tag present) => [(tag, present)]
  | _ => []

/-- The tags that a request names. -/
def Act.requests : Act → List (Block 32)
  | .listen (.request needed) => needed
  | _ => []

/-- What a lookup finds, when it is something. -/
def found (lookup : Block 32 × UString) : List UString :=
  if lookup.2 = [] then [] else [lookup.2]

/-- What a check misses. -/
def missing (check : Block 32 × Bool) : List (Block 32) := if check.2 then [] else [check.1]

/-- A step takes what it works off from the front of a list, and what it receives goes behind. -/
structure Tracks (before : Peer) (act : Act) (after : Peer) : Prop where
  asked : act.lookups.map Prod.fst ++ after.asked = before.asked ++ act.received getdataName
  offered : act.checks.map Prod.fst ++ after.offered = before.offered ++ act.received invName
  needed : act.requests ++ after.needed = before.needed ++ act.checks.flatMap missing

/-- The listener works off no `inv` and no `getdata`. -/
def Idle (self : Peer) : Prop := self.asked = [] ∧ self.offered = [] ∧ self.needed = []

/-- While the listener writes, it works off none. -/
theorem Resumable.idle {self : Peer} (behind : Resumable self.listener) : self.Idle := by
  unfold Idle asked offered needed
  cases phase : self.listener with
  | answering => rw [phase] at behind; exact behind.elim
  | checking => rw [phase] at behind; exact behind.elim
  | _ => exact ⟨rfl, rfl, rfl⟩

/-- The act names no tags. -/
structure Act.Silent (act : Act) : Prop where
  lookups : act.lookups = []
  checks : act.checks = []
  requests : act.requests = []
  asked : act.received getdataName = []
  offered : act.received invName = []

theorem Act.Silent.receive {packet : Packet} {name : UString}
    (same : cStr packet.command.toUString = name) (getdata : name ≠ getdataName)
    (inv : name ≠ invName) : Act.Silent (.listen (.receive packet)) :=
  ⟨rfl, rfl, rfl, Packet.tagsOf_of_other same getdata, Packet.tagsOf_of_other same inv⟩

theorem Tracks.of_silent {self after : Peer} {act : Act} (silent : act.Silent)
    (asked : after.asked = self.asked) (offered : after.offered = self.offered)
    (needed : after.needed = self.needed) : Tracks self act after := by
  constructor
  · rw [silent.lookups, silent.asked, asked, List.append_nil]
    rfl
  · rw [silent.checks, silent.offered, offered, List.append_nil]
    rfl
  · rw [silent.checks, silent.requests, needed, List.flatMap_nil, List.append_nil]
    rfl

theorem Tracks.of_idle {self after : Peer} {act : Act} (silent : act.Silent) (before : self.Idle)
    (behind : after.Idle) : Tracks self act after :=
  .of_silent silent (behind.1.trans before.1.symm) (behind.2.1.trans before.2.1.symm)
    (behind.2.2.trans before.2.2.symm)

theorem Step.tracks {k : Nat} {self after : Peer} {act : Act} (holdsReceived : self.HoldsReceived)
    (step : Step platform k self act after) : Tracks self act after := by
  have idle {peer : Peer} {phase : ListenerPhase} (here : peer.listener = phase)
      (plain : Idle { peer with listener := phase }) : peer.Idle := by
    subst here
    exact plain
  have nothing : ([] : List (Block 32)) = [] ∧ ([] : List (Block 32)) = [] ∧
      ([] : List (Block 32)) = [] := ⟨rfl, rfl, rfl⟩
  cases step with
  | push => exact .of_silent ⟨rfl, rfl, rfl, rfl, rfl⟩ rfl rfl rfl
  | send step =>
      cases step with
      | _ => exact .of_silent ⟨rfl, rfl, rfl, rfl, rfl⟩ rfl rfl rfl
  | listen step =>
      cases step with
      | done phase =>
          rw [HoldsReceived, phase] at holdsReceived
          exact .of_idle ⟨rfl, rfl, rfl, rfl, rfl⟩ (idle phase nothing)
            (Resumable.idle holdsReceived)
      | fail phase =>
          refine .of_idle ⟨rfl, rfl, rfl, rfl, rfl⟩ ?_ nothing
          rcases phase with phase | ⟨calls, next, phase⟩
          · exact idle phase nothing
          · exact idle phase nothing
      | pong phase _ name =>
          exact .of_idle (.receive name (by decide) (by decide)) (idle phase nothing) nothing
      | version phase _ name =>
          exact .of_idle (.receive name (by decide) (by decide)) (idle phase nothing)
            (idle phase nothing)
      | verack phase _ name =>
          exact .of_idle (.receive name (by decide) (by decide)) (idle phase nothing) nothing
      | addr phase _ name =>
          exact .of_idle (.receive name (by decide) (by decide)) (idle phase nothing) nothing
      | object phase _ name =>
          exact .of_idle (.receive name (by decide) (by decide)) (idle phase nothing) nothing
      | refuse phase _ name =>
          exact .of_idle (.receive name (by decide) (by decide)) (idle phase nothing)
            (idle phase nothing)
      | other phase _ unknown =>
          simp only [List.mem_cons, not_or] at unknown
          exact .of_idle ⟨rfl, rfl, rfl, Packet.tagsOf_of_name unknown.2.2.2.2.2.1,
            Packet.tagsOf_of_name unknown.2.2.2.2.1⟩ (idle phase nothing) (idle phase nothing)
      | inv phase _ name decoded =>
          have none := idle phase nothing
          have tags := Packet.tagsOf_of_decoded name (ofPacket_inv decoded)
          constructor
          · rw [none.1]
            exact (Packet.tagsOf_of_other name (by decide)).symm
          · rw [none.2.1, Act.received, tags]
            rfl
          · rw [none.2.2]
            rfl
      | check phase =>
          constructor
          · simp [asked, phase, Act.lookups, Act.received]
          · simp [offered, phase, Act.checks, Act.received]
          · simp only [needed, phase, Act.checks, Act.requests, missing, List.flatMap_singleton,
              List.nil_append]
            split
            next => rw [List.append_nil]
            next => rfl
      | request phase =>
          constructor
          · simp [asked, phase, Act.lookups, Act.received]
          · simp [offered, phase, Act.checks, Act.received]
          · simp [needed, phase, Act.checks, Act.requests]
      | getdata phase _ name decoded =>
          have none := idle phase nothing
          have tags := Packet.tagsOf_of_decoded name (ofPacket_getdata decoded)
          constructor
          · rw [none.1, Act.received, tags]
            rfl
          · rw [none.2.1]
            exact (Packet.tagsOf_of_other name (by decide)).symm
          · rw [none.2.2]
            rfl
      | answer phase =>
          constructor
          · simp [asked, phase, Act.lookups, Act.received]
          · simp [offered, phase, Act.checks, Act.received]
          · simp [needed, phase, Act.checks, Act.requests]
      | announce phase =>
          exact .of_idle ⟨rfl, rfl, rfl, rfl, rfl⟩ (idle phase nothing) (idle phase nothing)
      | resolve phase | connect phase | unreachable phase | write phase | collect phase | tell phase
      | accept phase | answered phase | introduce phase | introduced phase | leave phase
      | handle phase =>
          exact .of_idle ⟨rfl, rfl, rfl, rfl, rfl⟩ (idle phase nothing) nothing

end Peer

/-! ## What is relayed -/

/-- A packet of `listen_packets`: it is an `inv` or an `addr`. -/
def Packet.Relayed (packet : Packet) : Prop :=
  cStr packet.command.toUString = invName ∨ cStr packet.command.toUString = addrName

theorem Packet.Relayed.tagsOf {packet : Packet} (relayed : packet.Relayed) :
    packet.tagsOf getdataName = [] := by
  rcases relayed with inv | addr
  · exact tagsOf_of_other inv (by decide)
  · exact tagsOf_of_other addr (by decide)

theorem Packet.Relayed.objectsOf {packet : Packet} (relayed : packet.Relayed) :
    packet.objectsOf = [] := by
  rcases relayed with inv | addr
  · exact objectsOf_of_other inv (by decide)
  · exact objectsOf_of_other addr (by decide)

namespace Running

theorem Carries.relayed {self after : Running} {label : Label}
    (carries : self.Carries Packet.Relayed) (step : Step platform self label after) :
    after.Carries Packet.Relayed :=
  carries.step step (fun _ inventory _ => .inl (Node.invPacket_name inventory))
    fun _ _ _ _ name => .inr name

/-- Steps of a node that relays nothing else. -/
def Steady (platform : Platform) (self : Running) (label : Label) (after : Running) : Prop :=
  ((∀ peer ∈ self.peers, peer.HoldsReceived) ∧ self.Carries Packet.Relayed) ∧ True ∧
    Step platform self label after

theorem Steady.holdsReceived {self after : Running} {label : Label}
    (steady : Steady platform self label after) {k : Nat} :
    Allows k (fun peer _ => peer.HoldsReceived) self label :=
  fun peer _ here _ => steady.1.1 peer (List.mem_of_getElem? here)

theorem run_steady {node : Node} {after : Running} {trace : List (Running × Label)}
    (fresh : ∀ packet ∈ node.newPackets, packet.Relayed)
    (run : Run (Step platform) (start node) trace after) :
    Run (Steady platform) (start node) trace after := by
  refine (@Run.restrict _ _ _ _ _ _ (fun _ _ => True)
    (fun self => (∀ peer ∈ self.peers, peer.HoldsReceived) ∧ self.Carries Packet.Relayed)
    ⟨nofun, fresh, nofun, nofun⟩ ?_ run fun _ _ => trivial).1
  intro self label after held _ step
  exact ⟨step.keeps Peer.keeps_holdsReceived held.1, held.2.relayed step⟩

/-- What a queue takes up through a view that sees nothing in relayed packets. -/
theorem on_queued {k : Nat} {self after : Running} {label : Label}
    (moved : Steady platform self label after) (view : Packet → List α)
    (request : List (Block 32) → List α) (answer : UString → List α) (items : Peer.Act → List α)
    (blind : ∀ packet : Packet, packet.Relayed → view packet = [])
    (pushes : ∀ packet, items (.push packet) = []) (sends : ∀ act, items (.send act) = [])
    (listens : ∀ act, items (.listen act) = Peer.Act.queued view request answer (.listen act)) :
    label.on k (Peer.Act.queued view request answer) = label.on k items := by
  obtain ⟨⟨_, carries⟩, _, step⟩ := moved
  cases step with
  | @push packet i peer phase =>
      simp only [Label.on, Label.act?]
      split
      next =>
        rw [Option.elim_some, Option.elim_some, pushes]
        exact blind packet (carries.pushing packet i phase)
      next => rfl
  | send =>
      simp only [Label.on, Label.act?]
      split
      next =>
        rw [Option.elim_some, Option.elim_some, sends]
        rfl
      next => rfl
  | listen =>
      simp only [Label.on, Label.act?]
      split
      next => rw [Option.elim_some, Option.elim_some, listens]
      next => rfl
  | _ => rfl

/-- Parts of what a run brings for connection `k`. -/
theorem along_on {k : Nat} {β : Type} {trace : List (Running × Label)}
    (items : Peer.Act → List α) (f : α → List β) :
    (along (fun _ label => label.on k items) trace).flatMap f =
      along (fun _ label => label.on k fun act => (items act).flatMap f) trace := by
  rw [along_flatMap]
  congr 1
  funext _ label
  unfold Label.on
  cases label.act? k with
  | none => rfl
  | some act => rfl

theorem along_on_map {k : Nat} {β : Type} {trace : List (Running × Label)}
    (items : Peer.Act → List α) (f : α → β) :
    (along (fun _ label => label.on k items) trace).map f =
      along (fun _ label => label.on k fun act => (items act).map f) trace := by
  simp only [List.map_eq_flatMap]
  exact along_on items fun item => [f item]

/-! ## Answers -/

theorem asked_conserves (k : Nat) : Conserves (Steady platform) (view k Peer.asked)
    (fun _ label => label.on k (Peer.Act.received getdataName))
    (fun _ label => label.on k fun act => act.lookups.map Prod.fst) := by
  refine (@view_conserves platform _ k (fun peer _ => peer.HoldsReceived) Peer.asked _ _
    (fun version => rfl) fun self act after moved => (moved.2.tracks moved.1).asked).mono ?_
  exact fun self label after moved => ⟨moved.holdsReceived, moved.2.2⟩

theorem objects_conserves (k : Nat) :
    Conserves (Steady platform) (fun self => (self.queue k).flatMap Packet.objectsOf)
      (fun _ label => label.on k fun act => act.lookups.flatMap Peer.found)
      (fun _ label => label.on k (Peer.Act.sent Packet.objectsOf)) := by
  intro self label after moved
  have stage := @queue_conserves platform _ k (fun _ => True) Packet.objectsOf (fun _ => [])
    (fun objPayload => [objPayload])
    (fun draws self needed _ _ => Packet.objectsOf_of_other (Node.getdata_name needed) (by decide))
    (fun draws objPayload => if_pos (Node.objectPacket_name objPayload))
  have last := stage ⟨fun _ _ _ _ => trivial, moved.2.2⟩
  have lookups := @on_queued _ _ k _ _ _ moved Packet.objectsOf (fun _ => [])
    (fun objPayload => [objPayload]) (fun act => act.lookups.flatMap Peer.found)
    (fun packet relayed => relayed.objectsOf) (fun packet => rfl) (fun act => rfl) ?_
  · dsimp only at last ⊢
    rw [← lookups]
    exact last
  · intro act
    cases act with
    | request needed =>
        simp only [Peer.Act.lookups, Peer.Act.queued, List.flatMap_nil]
        split
        next => rfl
        next => rfl
    | answer tag objPayload =>
        simp [Peer.Act.lookups, Peer.Act.queued, Peer.found]
    | _ => rfl

/-- What a lookup finds in the system that it looks at. -/
def LookedUp (platform : Platform) (node : Node) (tag : Block 32) (objPayload : UString) : Prop :=
  (objPayload ≠ [] ∧ node.sharedObj.Stored objPayload ∧
    Node.inventoryHash platform objPayload = tag) ∨
  (objPayload = [] ∧ ∀ payload, node.sharedObj.Stored payload →
    Node.inventoryHash platform payload ≠ tag)

/-- A lookup and a check tell what is stored at the time. -/
theorem Step.truthful {self after : Running} {label : Label} {map : ContentMap UString}
    (addressed : self.sys.node.ContentAddressed platform map)
    (step : Step platform self label after) :
    (∀ k tag objPayload, label = .listen k (.answer tag objPayload) →
      LookedUp platform self.sys.node tag objPayload) ∧
    ∀ k tag present, label = .listen k (.check tag present) →
      present = self.sys.node.hasTag platform tag := by
  constructor
  · rintro k tag objPayload rfl
    cases step with
    | listen _ step =>
        cases step with
        | @answer _ draws _ _ _ phase found =>
            rcases addressed.searchByHash_cases draws.buffer tag with
              ⟨payload, search, nonempty, stored, same⟩ | ⟨search, absent⟩
            · cases found.symm.trans search
              exact .inl ⟨nonempty, stored, same⟩
            · cases found.symm.trans search
              refine .inr ⟨rfl, fun payload stored same => ?_⟩
              rw [← Bool.not_eq_true, addressed.present_iff] at absent
              exact absent ⟨payload, stored, same⟩
  · rintro k tag present named
    cases step with
    | listen _ step =>
        cases step with
        | check =>
            cases named
            exact addressed.present_eq_hasTag _ _
        | _ => cases named
    | _ => cases named

/-- Every tag that a peer asks for is looked up once, in the order of its requests, and what is
found then is all that its sender takes as objects, or that is still queued, in this order; the
object is the one that is stored under the tag at the time. -/
theorem answers_conserved {node : Node} {after : Running} {trace : List (Running × Label)}
    (reachable : System.Reachable platform (.idle node))
    (fresh : ∀ packet ∈ node.newPackets, packet.Relayed)
    (run : Run (Step platform) (start node) trace after) (k : Nat) :
    ∃ lookups : List (Block 32 × UString),
      lookups = along (fun _ label => label.on k Peer.Act.lookups) trace ∧
      lookups.map Prod.fst ++ after.view k Peer.asked =
        along (fun _ label => label.on k (Peer.Act.received getdataName)) trace ∧
      along (fun _ label => label.on k (Peer.Act.sent Packet.objectsOf)) trace ++
        (after.queue k).flatMap Packet.objectsOf = lookups.flatMap Peer.found ∧
      ∀ taken ∈ trace, ∀ tag objPayload, taken.2 = .listen k (.answer tag objPayload) →
        LookedUp platform taken.1.sys.node tag objPayload := by
  have steady := run_steady fresh run
  refine ⟨_, rfl, ?_, ?_, ?_⟩
  · have asked := (asked_conserves k).run steady
    have none : (start node).view k Peer.asked = [] := rfl
    rw [none, List.nil_append] at asked
    rw [← asked, along_on_map]
  · rw [along_on, (objects_conserves k).run steady]
    rfl
  · rintro ⟨self, label⟩ member tag objPayload named
    obtain ⟨before, behind, rfl⟩ := List.append_of_mem member
    obtain ⟨earlier, next, step, _⟩ := run.split
    obtain ⟨map, addressed⟩ := (reachable_sys reachable earlier).addressed
    exact (step.truthful addressed).1 k tag objPayload named

/-- The node with one object is asked for it, and for one that it does not have. -/
theorem answers_conserved_sample : ∃ trace after,
    Run (Step Platform.sample) (start Node.sampleStored) trace after ∧ after.queue 0 ≠ [] ∧
    ∃ lookups : List (Block 32 × UString),
      lookups = along (fun _ label => label.on 0 Peer.Act.lookups) trace ∧
      lookups.map Prod.fst ++ after.view 0 Peer.asked =
        along (fun _ label => label.on 0 (Peer.Act.received getdataName)) trace ∧
      along (fun _ label => label.on 0 (Peer.Act.sent Packet.objectsOf)) trace ++
        (after.queue 0).flatMap Packet.objectsOf = lookups.flatMap Peer.found ∧
      ∀ taken ∈ trace, ∀ tag objPayload, taken.2 = .listen 0 (.answer tag objPayload) →
        LookedUp Platform.sample taken.1.sys.node tag objPayload := by
  have few : Node.sampleInventory.length ≤ 50000 := by decide
  have read : readInventory.value (inventoryPayload Node.sampleInventory) 0 =
      .ok Node.sampleInventory := readInventory_payload (Node.inventoryPayload_short few)
  have round (sys : System) (conn : Connection) :=
    Peer.Handles.start (@Peer.Listen.getdata Platform.sample 0 sys ⟨conn, .receiving, .polling⟩ _
      { (Node.sampleTags getdataName (by decide) (by simp [getdataName]) _ few).packet.copy with
        inventory := Node.sampleInventory }
      rfl (Node.sampleTags_received (by decide) (by simp [getdataName]) few)
      (Node.sampleTags getdataName (by decide) (by simp [getdataName]) _ few).cStr_command
      (by rw [PacketGetdata.ofPacket]; exact congrArg (· >>= _) read))
      (Peer.GoesOn.answers Draws.sample rfl)
  obtain ⟨trace, after, sys, conn, run, stored, here⟩ := run_sampleStored round
  refine ⟨trace, after, run, ?_, answers_conserved Node.sampleStored_reachable
    (List.forall_mem_nil _) run 0⟩
  have found : Node.sampleStored.sharedObj.searchByHash [] Draws.sample.buffer
      (Node.inventoryHash Platform.sample Object.sample.messagePayload).toUString ≠ [] := by
    decide +kernel
  rw [← stored] at found
  rw [queue, view_eq here]
  simp [Peer.push, Node.sampleInventory, found]

/-! ## Requests -/

theorem offered_conserves (k : Nat) : Conserves (Steady platform) (view k Peer.offered)
    (fun _ label => label.on k (Peer.Act.received invName))
    (fun _ label => label.on k fun act => act.checks.map Prod.fst) := by
  refine (@view_conserves platform _ k (fun peer _ => peer.HoldsReceived) Peer.offered _ _
    (fun version => rfl) fun self act after moved => (moved.2.tracks moved.1).offered).mono ?_
  exact fun self label after moved => ⟨moved.holdsReceived, moved.2.2⟩

theorem needed_conserves (k : Nat) : Conserves (Steady platform) (view k Peer.needed)
    (fun _ label => label.on k fun act => act.checks.flatMap Peer.missing)
    (fun _ label => label.on k Peer.Act.requests) := by
  refine (@view_conserves platform _ k (fun peer _ => peer.HoldsReceived) Peer.needed _ _
    (fun version => rfl) fun self act after moved => (moved.2.tracks moved.1).needed).mono ?_
  exact fun self label after moved => ⟨moved.holdsReceived, moved.2.2⟩

theorem getdata_conserves (k : Nat) :
    Conserves (Steady platform) (fun self => (self.queue k).flatMap (Packet.tagsOf getdataName))
      (fun _ label => label.on k Peer.Act.requests)
      (fun _ label => label.on k (Peer.Act.sent (Packet.tagsOf getdataName))) := by
  intro self label after moved
  have stage := @queue_conserves platform _ k Peer.HoldsReceived (Packet.tagsOf getdataName)
    (fun needed => needed) (fun _ => []) ?_
    (fun draws objPayload => Packet.tagsOf_of_other (Node.objectPacket_name objPayload) (by decide))
  · have last := stage ⟨moved.holdsReceived, moved.2.2⟩
    have requests := @on_queued _ _ k _ _ _ moved (Packet.tagsOf getdataName)
      (fun needed => needed) (fun _ => []) Peer.Act.requests (fun packet relayed => relayed.tagsOf)
      (fun packet => rfl) (fun act => rfl) ?_
    · dsimp only at last ⊢
      rw [← requests]
      exact last
    · intro act
      cases act with
      | request needed =>
          simp only [Peer.Act.requests, Peer.Act.queued]
          split
          next none => exact none
          next => rfl
      | answer tag objPayload =>
          simp only [Peer.Act.requests, Peer.Act.queued]
          split
          next => rfl
          next => rfl
      | _ => rfl
  · intro draws self needed holdsReceived phase
    simp only [Peer.HoldsReceived, phase, List.length_nil, Nat.zero_add] at holdsReceived
    exact Node.tagsOf_getdata holdsReceived

/-- Every tag that a peer offers is checked once, in the order of its offers, and exactly those
that no shared object has at the time are in the requests that its sender takes, or that are queued
or collected, in this order. -/
theorem requests_conserved {node : Node} {after : Running} {trace : List (Running × Label)}
    (reachable : System.Reachable platform (.idle node))
    (fresh : ∀ packet ∈ node.newPackets, packet.Relayed)
    (run : Run (Step platform) (start node) trace after) (k : Nat) :
    ∃ checks : List (Block 32 × Bool),
      checks = along (fun _ label => label.on k Peer.Act.checks) trace ∧
      checks.map Prod.fst ++ after.view k Peer.offered =
        along (fun _ label => label.on k (Peer.Act.received invName)) trace ∧
      along (fun _ label => label.on k (Peer.Act.sent (Packet.tagsOf getdataName))) trace ++
          ((after.queue k).flatMap (Packet.tagsOf getdataName) ++ after.view k Peer.needed) =
        checks.flatMap Peer.missing ∧
      ∀ taken ∈ trace, ∀ tag present, taken.2 = .listen k (.check tag present) →
        present = taken.1.sys.node.hasTag platform tag := by
  have steady := run_steady fresh run
  refine ⟨_, rfl, ?_, ?_, ?_⟩
  · have offered := (offered_conserves k).run steady
    have none : (start node).view k Peer.offered = [] := rfl
    rw [none, List.nil_append] at offered
    rw [← offered, along_on_map]
  · rw [along_on, ((needed_conserves k).comp (getdata_conserves k)).run steady]
    rfl
  · rintro ⟨self, label⟩ member tag present named
    obtain ⟨before, behind, rfl⟩ := List.append_of_mem member
    obtain ⟨earlier, next, step, _⟩ := run.split
    obtain ⟨map, addressed⟩ := (reachable_sys reachable earlier).addressed
    exact (step.truthful addressed).2 k tag present named

/-- The node with one object is told of it, and of one that it does not have. -/
theorem requests_conserved_sample : ∃ trace after,
    Run (Step Platform.sample) (start Node.sampleStored) trace after ∧
    after.view 0 Peer.needed = [Platform.fit 32 []] ∧
    ∃ checks : List (Block 32 × Bool),
      checks = along (fun _ label => label.on 0 Peer.Act.checks) trace ∧
      checks.map Prod.fst ++ after.view 0 Peer.offered =
        along (fun _ label => label.on 0 (Peer.Act.received invName)) trace ∧
      along (fun _ label => label.on 0 (Peer.Act.sent (Packet.tagsOf getdataName))) trace ++
          ((after.queue 0).flatMap (Packet.tagsOf getdataName) ++ after.view 0 Peer.needed) =
        checks.flatMap Peer.missing ∧
      ∀ taken ∈ trace, ∀ tag present, taken.2 = .listen 0 (.check tag present) →
        present = taken.1.sys.node.hasTag Platform.sample tag := by
  have few : Node.sampleInventory.length ≤ 50000 := by decide
  have read : readInventory.value (inventoryPayload Node.sampleInventory) 0 =
      .ok Node.sampleInventory := readInventory_payload (Node.inventoryPayload_short few)
  have round (sys : System) (conn : Connection) :=
    Peer.Handles.start (@Peer.Listen.inv Platform.sample 0 sys ⟨conn, .receiving, .polling⟩ _
      { (Node.sampleTags invName (by decide) (by simp [invName]) _ few).packet.copy with
        inventory := Node.sampleInventory }
      rfl (Node.sampleTags_received (by decide) (by simp [invName]) few)
      (Node.sampleTags invName (by decide) (by simp [invName]) _ few).cStr_command
      (by rw [PacketInv.ofPacket]; exact congrArg (· >>= _) read))
      (Peer.GoesOn.checks Draws.sample rfl)
  obtain ⟨trace, after, sys, conn, run, stored, here⟩ := run_sampleStored round
  refine ⟨trace, after, run, ?_, requests_conserved Node.sampleStored_reachable
    (List.forall_mem_nil _) run 0⟩
  have known : Node.sampleStored.sharedObj.present Draws.sample.buffer
      (Node.inventoryHash Platform.sample Object.sample.messagePayload).toUString = true := by
    decide +kernel
  have unknown : Node.sampleStored.sharedObj.present Draws.sample.buffer
      (Platform.fit 32 []).toUString = false := by
    decide +kernel
  rw [← stored] at known unknown
  rw [view_eq here]
  simp [Peer.needed, Node.sampleInventory, known, unknown]

end Running

end BitMRC

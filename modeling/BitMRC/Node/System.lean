import BitMRC.Foundation.Transition
import BitMRC.Node.Persistence

/-!
# A node with its listeners

Every connection has a listener thread that hands objects to `processObj`, and one thread runs
`processPOW`.  Their calls interleave: sharing an object, announcing it and handling it are
steps of their own, with steps of other threads and of other operations in between.
-/

namespace BitMRC

open Foundation

variable {platform : Platform}

/-- How far a listener is in `processObj`. -/
inductive Phase where
  | idle
  /-- `sharedObj.insert` returned `present`. -/
  | inserted (present : Int) (obj : Object)
  /-- The object was announced. -/
  | announced (obj : Object)

/-- How far `processPOW` is in its loop. -/
inductive PowPhase where
  /-- In `objects.pop()`. -/
  | waiting
  | searching (obj : Object)
  /-- The object was inserted with this nonce. -/
  | inserted (obj : Object) (nonce : UInt64)
  /-- The loop was left. -/
  | ended

structure System where
  node : Node
  listeners : Nat → Phase
  pow : PowPhase

/-- The steps of `processPOW`, with the object as it was queued. -/
inductive PowAct where
  | take (obj : Object)
  | insert (obj : Object) (nonce : UInt64)
  /-- The checks refuse the object. -/
  | refuse (obj : Object) (nonce : UInt64)
  | announce (obj : Object) (nonce : UInt64)
  /-- `running` is not set in front of a round. -/
  | leave

/-- Steps; those of `processObj` name their listener and the object. -/
inductive Event where
  | insert (listener : Nat) (obj : Object)
  | leave (listener : Nat) (obj : Object)
  | announce (listener : Nat) (obj : Object)
  | handle (listener : Nat) (obj : Object)
  | pow (act : PowAct)
  | operation

/-- The search comes upon this nonce, and the checks say `valid` to the object with it. -/
def Node.Mines (platform : Platform) (obj : Object) (nonce : UInt64) (valid : Bool) : Prop :=
  ∃ (earlier : Int64) (fuel : Nat) (now : Int64),
    searchPow platform earlier fuel obj.messagePayload obj.time.toUInt64 = .ok (some nonce) ∧
      validateObj platform now (withNonce obj nonce) = .ok valid

/-- The operations besides `processObj` and `processPOW`. -/
inductive Node.Operation (platform : Platform) : Node → Node → Prop
  /-- `getPubKey` for an address string, or for a copy of an entry. -/
  | getPubKey {self after : Node} {draws : Draws platform} {uninit : Uninit} {string : UString}
      {address : PubAddr} (short : string.length < intLimit)
      (given : (PubAddr.new uninit).loadAddr platform string = .ok (true, address) ∨
        address ∈ self.pubAddresses) (result : self.getPubKey draws address = .ok after) :
      Operation platform self after
  | sendMessage {self after : Node} {draws : Draws platform} {message : UString}
      {toAddr : PubAddr} {fromAddr : Addr}
      (result : self.sendMessageKnown draws message toAddr fromAddr = .ok after) :
      Operation platform self after
  | sendBroadcast {self after : Node} {draws : Draws platform} {message : UString}
      {address : Addr} (result : self.sendBroadcast draws message address = .ok after) :
      Operation platform self after
  | addSubscription (self : Node) (address : PubAddr) :
      Operation platform self (self.addSubscription address)
  /-- The result of `generateRandom` is not looked at. -/
  | generateRandom {self : Node} {uninit : Uninit} {pool : List (Nat × Nat)} {loaded : Bool}
      {own : Addr}
      (result : (Addr.new uninit).generateRandom platform pool = .ok (some (loaded, own))) :
      Operation platform self (self.addPrivAddr own)
  | generateDeterministic {self : Node} {uninit : Uninit} {passphrase : UString} {fuel : Nat}
      {nonce next : Int32} {own : Addr}
      (result : (Addr.new uninit).generateDeterministic platform passphrase fuel nonce =
        .ok (some (next, own))) : Operation platform self (self.addPrivAddr own)
  | send (self : Node) (packet : Packet) : Operation platform self (self.send platform packet)
  /-- The queues are emptied by other threads, and connections come and go. -/
  | takeQueued {self : Node} {newPackets : List Packet} {newMessages : List Message}
      {newInv : List (Block 32)} (nodes : List (UString × UString))
      (packets : newPackets <:+ self.newPackets) (messages : newMessages <:+ self.newMessages)
      (inv : newInv <:+ self.newInv) :
      Operation platform self { self with newPackets, newMessages, newInv, nodes }

namespace System

/-- No listener is in `processObj`, and nothing is being mined. -/
def idle (node : Node) : System := ⟨node, fun _ => .idle, .waiting⟩

/-- The listener `i` goes on. -/
def proceed (sys : System) (i : Nat) (phase : Phase) (node : Node) : System :=
  { sys with node, listeners := Function.update sys.listeners i phase }

@[simp] theorem proceed_listeners (sys : System) (i : Nat) (phase : Phase) (node : Node) :
    (sys.proceed i phase node).listeners i = phase := by
  simp only [proceed, Function.update_self]

@[simp] theorem proceed_proceed (sys : System) (i : Nat) (phase next : Phase) (node after : Node) :
    (sys.proceed i phase node).proceed i next after = sys.proceed i next after := by
  simp only [proceed, Function.update_idem]

theorem proceed_idle {sys : System} {i : Nat} (free : sys.listeners i = .idle) (node : Node) :
    sys.proceed i .idle node = { sys with node } := by
  rw [proceed, ← free, Function.update_eq_self]

inductive Step (platform : Platform) : System → Event → System → Prop
  | insert {sys : System} {i : Nat} {draws : Draws platform} {packet : Packet} {obj : Object}
      (free : sys.listeners i = .idle) (decoded : Object.ofPacket packet = .ok obj)
      (valid : Node.validateObj platform draws.now obj = .ok true) :
      Step platform sys (.insert i obj)
        (sys.proceed i
          (.inserted (sys.node.share platform draws.buffer obj.messagePayload).1 obj)
          (sys.node.share platform draws.buffer obj.messagePayload).2)
  | leave {sys : System} {i : Nat} {obj : Object}
      (present : sys.listeners i = .inserted 2 obj) :
      Step platform sys (.leave i obj) (sys.proceed i .idle sys.node)
  | announce {sys : System} {i : Nat} {present : Int} {obj : Object}
      (inserted : sys.listeners i = .inserted present obj) (new : present ≠ 2) :
      Step platform sys (.announce i obj)
        (sys.proceed i (.announced obj) (sys.node.pushInv platform obj.messagePayload))
  | handle {sys : System} {i : Nat} {draws : Draws platform} {uninit : Uninit} {obj : Object}
      {after : Node} (announced : sys.listeners i = .announced obj)
      (result : sys.node.handleObj draws uninit obj = .ok after) :
      Step platform sys (.handle i obj) (sys.proceed i .idle after)
  /-- Anything but an object is dropped. -/
  | take {sys : System} {obj : Object} {rest : List Object} (waiting : sys.pow = .waiting)
      (queued : sys.node.objects = obj :: rest) :
      Step platform sys (.pow (.take obj)) {
        sys with
        node := { sys.node with objects := rest }
        pow :=
          if cStr obj.command.toUString = cStr Node.objectCommand.toUString then .searching obj
          else .waiting }
  | mine {sys : System} {buffer : UString} {obj : Object} {nonce : UInt64}
      (searching : sys.pow = .searching obj) (mines : Node.Mines platform obj nonce true) :
      Step platform sys (.pow (.insert obj nonce)) {
        sys with
        node := (sys.node.share platform buffer (Node.withNonce obj nonce).messagePayload).2
        pow := .inserted obj nonce }
  | refuse {sys : System} {obj : Object} {nonce : UInt64} (searching : sys.pow = .searching obj)
      (mines : Node.Mines platform obj nonce false) :
      Step platform sys (.pow (.refuse obj nonce)) { sys with pow := .waiting }
  | publish {sys : System} {obj : Object} {nonce : UInt64}
      (inserted : sys.pow = .inserted obj nonce) :
      Step platform sys (.pow (.announce obj nonce)) {
        sys with
        node := sys.node.pushInv platform (Node.withNonce obj nonce).messagePayload
        pow := .waiting }
  | stop {sys : System} (waiting : sys.pow = .waiting) :
      Step platform sys (.pow .leave) { sys with pow := .ended }
  | operation {sys : System} {after : Node} (operation : sys.node.Operation platform after) :
      Step platform sys .operation { sys with node := after }

/-- The states of a node that was started on nothing, or on a `keys.dat` and the
object file of an earlier node, which may have been cut. -/
inductive Reachable (platform : Platform) : System → Prop
  | start : Reachable platform (idle Node.new)
  | restart {saved : System} {draws : Draws platform} {uninit : Uninit} {m : Nat}
      {kFile : Option UString} {after : Node} (earlier : Reachable platform saved)
      (result : Node.new.load draws uninit (some (saved.node.saveObjects.take m)) kFile =
        .ok after) : Reachable platform (idle after)
  | step {sys after : System} {event : Event} (before : Reachable platform sys)
      (move : Step platform sys event after) : Reachable platform after

end System

/-- The tags that a step of `processPOW` announces. -/
def PowAct.announced (platform : Platform) : PowAct → List (Block 32)
  | .announce obj nonce => [Node.inventoryHash platform (Node.withNonce obj nonce).messagePayload]
  | _ => []

/-- Its steps leave the listeners, the packets and the peers alone. -/
structure System.PowStays (platform : Platform) (before after : System) (act : PowAct) : Prop where
  listeners : after.listeners = before.listeners
  newPackets : after.node.newPackets = before.node.newPackets
  nodes : after.node.nodes = before.node.nodes
  newInv : after.node.newInv = before.node.newInv ++ act.announced platform

theorem System.Step.powStays {sys after : System} {act : PowAct}
    (step : Step platform sys (.pow act) after) : PowStays platform sys after act := by
  cases step with
  | take => exact ⟨rfl, rfl, rfl, (List.append_nil _).symm⟩
  | mine => exact ⟨rfl, rfl, rfl, (List.append_nil _).symm⟩
  | refuse => exact ⟨rfl, rfl, rfl, (List.append_nil _).symm⟩
  | publish => exact ⟨rfl, rfl, rfl, rfl⟩
  | stop => exact ⟨rfl, rfl, rfl, (List.append_nil _).symm⟩

/-- A round of `processPOW` is a run in which only its thread moves. -/
theorem System.run_of_processPOW {sys : System} {earlier : Int64} {fuel : Nat}
    {draws : Draws platform} {after : Node} (waiting : sys.pow = .waiting)
    (result : sys.node.processPOW earlier fuel draws = .ok (some after)) :
    ∃ trace, Run (Step platform) sys trace { sys with node := after } ∧
      ∀ taken ∈ trace, ∃ act, taken.2 = .pow act := by
  obtain ⟨node, listeners, pow⟩ := sys
  cases waiting
  unfold Node.processPOW at result
  split at result
  next => cases result
  next obj rest queue =>
    have taken := @Step.take platform ⟨node, listeners, .waiting⟩ obj rest rfl queue
    split at result
    next other =>
      cases result
      rw [if_neg other] at taken
      exact ⟨_, .single taken, List.forall_mem_singleton.mpr ⟨_, rfl⟩⟩
    next object =>
      rw [if_pos (not_not.mp object)] at taken
      obtain ⟨found, search, result⟩ := bind_eq_ok.mp result
      cases found with
      | none => cases result
      | some nonce =>
          obtain ⟨final, propagated, result⟩ := bind_eq_ok.mp result
          cases result
          unfold Node.propagate at propagated
          obtain ⟨valid, checked, propagated⟩ := bind_eq_ok.mp propagated
          cases valid with
          | false =>
              cases propagated
              have refused := @Step.refuse platform ⟨{ node with objects := rest }, listeners,
                .searching obj⟩ obj nonce rfl ⟨_, _, _, search, checked⟩
              refine ⟨_, (Run.single taken).next refused, ?_⟩
              simp
          | true =>
              cases propagated
              have mined := @Step.mine platform ⟨{ node with objects := rest }, listeners,
                .searching obj⟩ draws.buffer obj nonce rfl ⟨_, _, _, search, checked⟩
              refine ⟨_, ((Run.single taken).next mined).next (.publish rfl), ?_⟩
              simp

/-! ## The invariant of reachable nodes -/

/-- Taking from the queues leaves the tables alone; all else is a sequence of changes. -/
theorem Node.Operation.changes {self after : Node} (sound : self.Sound platform)
    (operation : self.Operation platform after) :
    self.Changes platform after ∨ self.Agrees after := by
  cases operation with
  | takeQueued nodes => exact .inr ⟨rfl, rfl, rfl⟩
  | getPubKey short given result =>
      refine .inl (getPubKey_changes ?_ result)
      rcases given with loaded | listed
      · exact .of_loadAddr short loaded
      · exact (sound.listed _ listed).1
  | sendMessage result =>
      obtain ⟨obj, _, result⟩ := bind_eq_ok.mp result
      cases result
      exact .inr ⟨rfl, rfl, rfl⟩
  | sendBroadcast result =>
      obtain ⟨obj, _, result⟩ := bind_eq_ok.mp result
      cases result
      exact .inr ⟨rfl, rfl, rfl⟩
  | addSubscription address => exact .inr ⟨rfl, rfl, rfl⟩
  | generateRandom result =>
      exact .inl (.single (.adopt self _ (Addr.generateRandom_generated result)))
  | generateDeterministic result =>
      exact .inl (.single (.adopt self _ (Addr.generateDeterministic_generated result)))
  | send packet => exact .inr ⟨rfl, rfl, rfl⟩

namespace System

/-- What a step does to the node. -/
theorem Step.changes {sys after : System} {event : Event} (sound : sys.node.Sound platform)
    (step : Step platform sys event after) :
    sys.node.Changes platform after.node ∨ sys.node.Agrees after.node := by
  cases step with
  | insert free decoded valid =>
      exact .inl (.single (.share sys.node _ _ (Storable.of_packet decoded valid)))
  | leave present => exact .inr ⟨rfl, rfl, rfl⟩
  | announce inserted new => exact .inr ⟨rfl, rfl, rfl⟩
  | handle announced result => exact .inl (Node.handleObj_changes result)
  | take waiting queued => exact .inr ⟨rfl, rfl, rfl⟩
  | mine searching mines =>
      obtain ⟨_, _, _, _, valid⟩ := mines
      exact .inl (.single (.share sys.node _ _ ⟨validateObj_short valid, fun packet same =>
        ⟨_, Object.decodeData_encodePayload same⟩⟩))
  | refuse searching mines => exact .inr ⟨rfl, rfl, rfl⟩
  | publish inserted => exact .inr ⟨rfl, rfl, rfl⟩
  | stop waiting => exact .inr ⟨rfl, rfl, rfl⟩
  | operation operation => exact operation.changes sound

theorem Step.sound {sys after : System} {event : Event} (sound : sys.node.Sound platform)
    (step : Step platform sys event after) : after.node.Sound platform := by
  rcases step.changes sound with changes | agrees
  · exact sound.changes changes
  · exact sound.agrees agrees

/-- Stored payloads stay stored. -/
theorem Step.stored {sys after : System} {event : Event} (sound : sys.node.Sound platform)
    (step : Step platform sys event after) {payload : UString}
    (stored : sys.node.sharedObj.Stored payload) : after.node.sharedObj.Stored payload := by
  rcases step.changes sound with changes | agrees
  · exact changes.stored stored
  · rwa [agrees.sharedObj]

theorem Reachable.sound {sys : System} (reachable : Reachable platform sys) :
    sys.node.Sound platform := by
  induction reachable with
  | start => exact .new
  | restart earlier result ih => exact Node.Sound.new.changes (Node.load_changes ih result)
  | step before move ih => exact move.sound ih

end System

end BitMRC

import BitMRC.Node.System

/-!
# Sharing objects

Objects made here pass the checks of `validateObj` once their nonce is found, and
are shared under their inventory hash.

A received object should be shared, announced and handled once when it is new, and
change nothing when it is there already.  Since `processObj` takes the return code
2 of `insert` for a duplicate and passes over 0, this is so exactly while the chain
of the inventory hash is empty.
-/

namespace BitMRC

open Foundation UString

variable {platform : Platform}

namespace Node

/-- The chain that a payload goes to. -/
def chainOf (platform : Platform) (self : Node) (payload : UString) : List (LinkedNode UString) :=
  self.sharedObj.table (hashF [] (inventoryHash platform payload).toUString)

theorem chainOf_eq {self : Node} (buffer payload : UString) :
    self.sharedObj.table (hashF buffer (inventoryHash platform payload).toUString) =
      self.chainOf platform payload := by
  rw [chainOf, hashF_inventoryHash]

end Node

/-! ## Objects made here -/

/-- Inside the window the subtraction of the two clock values is exact. -/
theorem toInt_sub_window {time now : Int64} (recent : -3600 < time.toInt - now.toInt)
    (near : time.toInt - now.toInt ≤ 2430000) :
    (time - now).toInt = time.toInt - now.toInt := by
  rw [Int64.toInt_sub, Int.bmod_eq_of_le (by omega) (by omega)]

/-- With the nonce found at an earlier time a queued object is valid. -/
theorem validateObj_withNonce {obj : Object} {nonce : UInt64} {earlier later : Int64}
    {fuel : Nat} (order : earlier.toInt ≤ later.toInt)
    (near : obj.time.toInt - earlier.toInt ≤ 2430000)
    (recent : -3600 < obj.time.toInt - later.toInt)
    (short : (Node.queued obj).messagePayload.length ≤ 0x40000)
    (found : searchPow platform earlier fuel (Node.queued obj).messagePayload
      obj.time.toUInt64 = .ok (some nonce)) :
    Node.validateObj platform later (Node.withNonce (Node.queued obj) nonce) = .ok true := by
  rw [Node.queued_messagePayload, List.length_append, appendInt64_length] at short
  rw [Node.queued_messagePayload] at found
  have passes := checkPow_searchPow (appendInt64_length _) (by omega) order near recent found
  have payload := Node.withNonce_queued_payload obj nonce
  have size : ¬(0x40000 < (Node.withNonce (Node.queued obj) nonce).messagePayload.length) := by
    rw [payload, List.length_append, appendInt64_length]
    omega
  have window := toInt_sub_window recent (by omega)
  have late : ¬((28 * 24 * 60 * 60 + 10800 : Int64) < obj.time - later) := by
    rw [Int64.lt_iff_toInt_lt, window]
    have limit : (28 * 24 * 60 * 60 + 10800 : Int64).toInt = 2430000 := by decide
    omega
  have old : ¬(obj.time - later < (-3600 : Int64)) := by
    rw [Int64.lt_iff_toInt_lt, window]
    have limit : (-3600 : Int64).toInt = -3600 := by decide
    omega
  have time : (Node.withNonce (Node.queued obj) nonce).time = obj.time := rfl
  rw [Node.validateObj, if_neg size, time, if_neg late, if_neg old, payload]
  exact passes

/-- What `sendObj` queues is shared by `processPOW` and `propagate` under its inventory
hash, and nothing else is, once its nonce is found. -/
theorem mined_shared {sys : System} (reachable : System.Reachable platform sys) {obj : Object}
    {nonce : UInt64} {earlier : Int64} {fuel : Nat} {draws : Draws platform}
    (order : earlier.toInt ≤ draws.now.toInt)
    (near : obj.time.toInt - earlier.toInt ≤ 2430000)
    (recent : -3600 < obj.time.toInt - draws.now.toInt)
    (short : (Node.queued obj).messagePayload.length ≤ 0x40000)
    (found : searchPow platform earlier fuel (Node.queued obj).messagePayload
      obj.time.toUInt64 = .ok (some nonce)) :
    Node.validateObj platform draws.now (Node.withNonce (Node.queued obj) nonce) = .ok true ∧
      ∃ after, sys.node.propagate draws (Node.withNonce (Node.queued obj) nonce) = .ok after ∧
        (∃ cur ∈ after.chainOf platform (Node.withNonce (Node.queued obj) nonce).messagePayload,
          cur.info = (Node.withNonce (Node.queued obj) nonce).messagePayload ∧
          cur.hash = (Node.inventoryHash platform cur.info).toUString) ∧
        ∀ i, ∀ cur ∈ after.sharedObj.table i, cur ∈ sys.node.sharedObj.table i ∨
          cur.info = (Node.withNonce (Node.queued obj) nonce).messagePayload := by
  have valid := validateObj_withNonce order near recent short found
  generalize Node.withNonce (Node.queued obj) nonce = mined at valid ⊢
  have sound := reachable.sound
  have inserted := HashTable.exists_mem_insert sys.node.sharedObj draws.buffer
    mined.messagePayload (Node.inventoryHash platform mined.messagePayload).toUString
  have only := @HashTable.mem_insert _ _ sys.node.sharedObj draws.buffer
    mined.messagePayload (Node.inventoryHash platform mined.messagePayload).toUString
  refine ⟨valid, ((sys.node.share platform draws.buffer mined.messagePayload).2).pushInv
    platform mined.messagePayload, ?_, ?_, ?_⟩
  · simp only [Node.propagate, valid, bind, Except.bind, if_true]
    rfl
  · obtain ⟨cur, member, info⟩ := inserted
    rw [← Node.chainOf_eq draws.buffer]
    refine ⟨cur, member, info, ?_⟩
    rcases only member with old | ⟨_, new⟩
    · exact (sound.addressed _ cur old).hash_eq
    · rw [new]
  · intro i cur member
    rcases only member with old | ⟨_, new⟩
    · exact .inl old
    · exact .inr (by rw [new])

/-- A getpubkey object of time 0 with nonce 0 and no tag. -/
def Packet.sample : Packet where
  magic := 0
  command := Platform.fit 12 []
  length := 0
  checksum := Platform.fit 4 []
  messagePayload := List.replicate 20 0 ++ [4, 1]

def Object.sample : Object where
  toPacket := Packet.sample.copy
  nonce := 0
  time := 0
  objectType := typeGetpubkey
  objectPayload := []
  version := 4
  stream := 1

/-- The request of time 0 at a fresh node, where the search ends with the first nonce. -/
theorem mined_shared_sample :
    Node.validateObj Platform.sample 0 (Node.withNonce (Node.queued Object.sample) 1) =
      .ok true ∧
    ∃ after, Node.new.propagate Draws.sample
        (Node.withNonce (Node.queued Object.sample) 1) = .ok after ∧
      (∃ cur ∈ after.chainOf Platform.sample
          (Node.withNonce (Node.queued Object.sample) 1).messagePayload,
        cur.info = (Node.withNonce (Node.queued Object.sample) 1).messagePayload ∧
        cur.hash = (Node.inventoryHash Platform.sample cur.info).toUString) ∧
      ∀ i, ∀ cur ∈ after.sharedObj.table i, cur ∈ Node.new.sharedObj.table i ∨
        cur.info = (Node.withNonce (Node.queued Object.sample) 1).messagePayload :=
  @mined_shared Platform.sample _ .start Object.sample 1 0 2 Draws.sample (by decide)
    (by decide) (by decide) (by decide) (by decide +kernel)

/-! ## Objects received -/

namespace Node

/-- How a valid object should be processed. -/
structure AnalysedOnce {platform : Platform} (draws : Draws platform) (uninit : Uninit)
    (node : Node) (obj : Object) : Prop where
  /-- A new payload is stored and announced, then the handler of its type runs. -/
  absent : ¬node.sharedObj.Stored obj.messagePayload →
    (node.share platform draws.buffer obj.messagePayload).2.sharedObj.Stored
        obj.messagePayload ∧
      node.processObj draws uninit obj =
        ((node.share platform draws.buffer obj.messagePayload).2.pushInv platform
          obj.messagePayload).handleObj draws uninit obj
  /-- With a stored payload nothing changes. -/
  present : node.sharedObj.Stored obj.messagePayload →
    ∃ after, node.processObj draws uninit obj = .ok after ∧
      after.sharedObj = node.sharedObj ∧ after.newInv = node.newInv ∧
      after.pubAddresses = node.pubAddresses ∧ after.privAddresses = node.privAddresses ∧
      after.subscriptions = node.subscriptions ∧ after.messages = node.messages

variable {draws : Draws platform} {uninit : Uninit} {self : Node} {obj : Object}

/-- Only the code 2 makes `processObj` stop. -/
theorem processObj_valid (valid : validateObj platform draws.now obj = .ok true) :
    self.processObj draws uninit obj =
      if (self.share platform draws.buffer obj.messagePayload).1 = 2 then
        .ok (self.share platform draws.buffer obj.messagePayload).2
      else
        ((self.share platform draws.buffer obj.messagePayload).2.pushInv platform
          obj.messagePayload).handleObj draws uninit obj := by
  simp only [processObj, valid, bind, Except.bind, if_true]
  rfl

/-- An object that was announced again shows in the queue, whatever its handler does. -/
theorem handleObj_pushInv_ne {shared after : Node} (queue : after.newInv = shared.newInv)
    (payload : UString) :
    (shared.pushInv platform payload).handleObj draws uninit obj ≠ .ok after := by
  intro handled
  have grown := (handleObj_changes handled).newInv.length_le
  rw [queue] at grown
  simp [pushInv] at grown

/-- An object is analysed properly exactly when its chain is empty. -/
theorem Sound.analysedOnce_iff (sound : self.Sound platform)
    (valid : validateObj platform draws.now obj = .ok true) :
    AnalysedOnce draws uninit self obj ↔ self.chainOf platform obj.messagePayload = [] := by
  have process := @processObj_valid platform draws uninit self obj valid
  have outcomes := HashTable.insert_cases self.sharedObj draws.buffer obj.messagePayload
    (inventoryHash platform obj.messagePayload).toUString
  rw [chainOf_eq] at outcomes
  have stored := sound.stored_iff draws.buffer obj.messagePayload
  rw [chainOf_eq] at stored
  rcases outcomes with ⟨empty, result⟩ | ⟨found, result⟩ | ⟨occupied, new, result⟩
  · have code : (self.share platform draws.buffer obj.messagePayload).1 = 1 :=
      congrArg Prod.fst result
    have absent : ¬self.sharedObj.Stored obj.messagePayload := by
      rw [stored, empty]
      rintro ⟨node, member, _⟩
      cases member
    rw [code, if_neg (by decide)] at process
    refine ⟨fun _ => empty, fun _ => ⟨fun _ => ⟨?_, process⟩, fun present => absurd present absent⟩⟩
    exact ⟨_, HashTable.exists_mem_insert self.sharedObj draws.buffer obj.messagePayload _⟩
  · -- a duplicate is announced and handled again
    have code : (self.share platform draws.buffer obj.messagePayload).1 = 0 :=
      congrArg Prod.fst result
    have occupied : self.chainOf platform obj.messagePayload ≠ [] := by
      obtain ⟨node, member, _⟩ := found
      exact List.ne_nil_of_mem member
    rw [code, if_neg (by decide)] at process
    refine ⟨fun once => ?_, fun empty => absurd empty occupied⟩
    obtain ⟨after, processed, _, queue, _⟩ := once.present (stored.mpr found)
    rw [process] at processed
    exact absurd processed (@handleObj_pushInv_ne _ _ _ _
      (self.share platform draws.buffer obj.messagePayload).2 _ queue _)
  · -- behind a collision nothing is announced
    have code : (self.share platform draws.buffer obj.messagePayload).1 = 2 :=
      congrArg Prod.fst result
    have absent : ¬self.sharedObj.Stored obj.messagePayload := by
      rw [stored]
      rintro ⟨node, member, equal⟩
      exact new node member equal
    rw [if_pos code] at process
    refine ⟨fun once => ?_, fun empty => absurd empty occupied⟩
    have handled := (once.absent absent).2
    rw [process] at handled
    exact absurd handled.symm (handleObj_pushInv_ne rfl _)

end Node

/-! ## Runs -/

namespace Event

/-- The listener that takes a step. -/
def listener? : Event → Option Nat
  | insert i _ | leave i _ | announce i _ | handle i _ => some i
  | pow _ | operation => none

/-- The payload that a step hands to `insert`. -/
def shared? : Event → Option UString
  | insert _ obj => some obj.messagePayload
  | _ => none

end Event

/-- Calls of one listener, the last one perhaps not over: each of them shares its
object, announces it and handles it, each once. -/
inductive Calls (i : Nat) : List Event → Phase → Prop
  | none : Calls i [] .idle
  | insert {events : List Event} {present : Int} (obj : Object) (new : present ≠ 2)
      (before : Calls i events .idle) :
      Calls i (events ++ [.insert i obj]) (.inserted present obj)
  | announce {events : List Event} {present : Int} {obj : Object}
      (before : Calls i events (.inserted present obj)) :
      Calls i (events ++ [.announce i obj]) (.announced obj)
  | handle {events : List Event} {obj : Object} (before : Calls i events (.announced obj)) :
      Calls i (events ++ [.handle i obj]) .idle

/-- No call has met a collision. -/
theorem Calls.new {i : Nat} {events : List Event} {present : Int} {obj : Object}
    (calls : Calls i events (.inserted present obj)) : present ≠ 2 := by
  cases calls with
  | insert obj new before => exact new

namespace System

/-- The steps of one listener in a run. -/
def eventsOf (i : Nat) (trace : List (System × Event)) : List Event :=
  (trace.map Prod.snd).filter (·.listener? = some i)

/-- The payloads that were shared in a run. -/
def payloads (trace : List (System × Event)) : List UString :=
  trace.filterMap fun taken => taken.2.shared?

/-- An insertion meets an empty chain. -/
def MeetsEmptyChain (platform : Platform) (sys : System) (event : Event) : Prop :=
  ∀ payload ∈ event.shared?, sys.node.chainOf platform payload = []

/-- What holds behind a run in which every insertion met an empty chain. -/
structure Analysed (platform : Platform) (trace : List (System × Event)) (sys : System) :
    Prop where
  sound : sys.node.Sound platform
  calls : ∀ i, Calls i (eventsOf i trace) (sys.listeners i)
  stored : ∀ payload ∈ payloads trace, sys.node.sharedObj.Stored payload
  once : (payloads trace).Nodup
  absent : ∀ taken ∈ trace, ∀ payload ∈ taken.2.shared?,
    ¬taken.1.node.sharedObj.Stored payload

theorem eventsOf_append (i : Nat) (trace : List (System × Event)) (sys : System)
    (event : Event) : eventsOf i (trace ++ [(sys, event)]) =
      eventsOf i trace ++ if event.listener? = some i then [event] else [] := by
  rw [eventsOf, List.map_append, List.filter_append, eventsOf]
  by_cases own : event.listener? = some i
  · simp [own]
  · simp [own]

theorem payloads_append (trace : List (System × Event)) (sys : System) (event : Event) :
    payloads (trace ++ [(sys, event)]) = payloads trace ++ event.shared?.toList := by
  rw [payloads, List.filterMap_append, payloads]
  cases event <;> rfl

/-- When one listener goes on with its call, the others stay where they are. -/
theorem calls_proceed {trace : List (System × Event)} {sys : System} {event : Event} {i : Nat}
    {phase : Phase} {node : Node} (calls : ∀ i, Calls i (eventsOf i trace) (sys.listeners i))
    (own : event.listener? = some i) (goes : Calls i (eventsOf i trace ++ [event]) phase) :
    ∀ j, Calls j (eventsOf j (trace ++ [(sys, event)]))
      ((sys.proceed i phase node).listeners j) := by
  intro j
  rw [eventsOf_append, own]
  by_cases same : j = i
  · subst same
    simpa [proceed] using goes
  · have other : ¬(some i = some j) := fun equal => same (Option.some.inj equal).symm
    simpa [proceed, same, other] using calls j

/-- A step that shares nothing new. -/
theorem Analysed.of_calls {trace : List (System × Event)} {sys after : System} {event : Event}
    (analysed : Analysed platform trace sys) (step : Step platform sys event after)
    (nothing : event.shared? = none)
    (calls : ∀ i, Calls i (eventsOf i (trace ++ [(sys, event)])) (after.listeners i)) :
    Analysed platform (trace ++ [(sys, event)]) after := by
  have payloads_eq : payloads (trace ++ [(sys, event)]) = payloads trace := by
    rw [payloads_append, nothing]
    exact List.append_nil _
  constructor
  · exact step.sound analysed.sound
  · exact calls
  · intro payload member
    rw [payloads_eq] at member
    exact step.stored analysed.sound (analysed.stored payload member)
  · rw [payloads_eq]
    exact analysed.once
  · intro taken member payload shared
    rcases List.mem_append.mp member with old | last
    · exact analysed.absent taken old payload shared
    · rw [List.mem_singleton.mp last, nothing] at shared
      cases shared

/-- A step keeps this when an insertion meets an empty chain. -/
theorem Analysed.step {trace : List (System × Event)} {sys after : System} {event : Event}
    (analysed : Analysed platform trace sys) (meets : MeetsEmptyChain platform sys event)
    (step : Step platform sys event after) :
    Analysed platform (trace ++ [(sys, event)]) after := by
  have moved := step
  cases step with
  | @insert i draws packet obj free decoded valid =>
      have empty := meets obj.messagePayload rfl
      have code : (sys.node.share platform draws.buffer obj.messagePayload).1 ≠ 2 := by
        have result := HashTable.insert_of_empty sys.node.sharedObj draws.buffer
          obj.messagePayload _ (Node.chainOf_eq draws.buffer obj.messagePayload ▸ empty)
        have one : (sys.node.share platform draws.buffer obj.messagePayload).1 = 1 :=
          congrArg Prod.fst result
        rw [one]
        decide
      have calls := analysed.calls i
      rw [free] at calls
      have absent : ¬sys.node.sharedObj.Stored obj.messagePayload :=
        analysed.sound.not_stored_of_empty ((Node.chainOf_eq [] obj.messagePayload).trans empty)
      constructor
      · exact moved.sound analysed.sound
      · exact calls_proceed analysed.calls rfl (calls.insert obj code)
      · intro payload member
        rw [payloads_append] at member
        rcases List.mem_append.mp member with old | fresh
        · exact moved.stored analysed.sound (analysed.stored payload old)
        · rw [List.mem_singleton.mp fresh]
          exact ⟨_, HashTable.exists_mem_insert sys.node.sharedObj draws.buffer
            obj.messagePayload _⟩
      · rw [payloads_append]
        apply List.Nodup.append analysed.once (List.nodup_singleton _)
        intro payload old fresh
        exact absent (List.mem_singleton.mp fresh ▸ analysed.stored payload old)
      · intro taken member payload shared
        rcases List.mem_append.mp member with old | last
        · exact analysed.absent taken old payload shared
        · rw [List.mem_singleton.mp last] at shared ⊢
          rwa [← Option.some.inj shared]
  | @leave i obj present =>
      have calls := analysed.calls i
      rw [present] at calls
      exact absurd rfl calls.new
  | @announce i present obj inserted new =>
      have calls := analysed.calls i
      rw [inserted] at calls
      exact analysed.of_calls moved rfl (calls_proceed analysed.calls rfl calls.announce)
  | @handle i draws uninit obj node announced result =>
      have calls := analysed.calls i
      rw [announced] at calls
      exact analysed.of_calls moved rfl (calls_proceed analysed.calls rfl calls.handle)
  | _ =>
      -- no listener takes these steps
      apply analysed.of_calls moved rfl
      intro i
      rw [eventsOf_append]
      simpa [Event.listener?] using analysed.calls i

/-- A run with empty chains, from a state in which no listener is busy. -/
theorem Analysed.run {start after : System} {trace : List (System × Event)}
    (reachable : Reachable platform start) (free : ∀ i, start.listeners i = .idle)
    (run : Run (Step platform) start trace after)
    (meets : ∀ taken ∈ trace, MeetsEmptyChain platform taken.1 taken.2) :
    Analysed platform trace after := by
  refine run.invariant ?_ (fun _ _ _ _ _ analysed met step => analysed.step met step) meets
  constructor
  · exact reachable.sound
  · intro i
    rw [free i]
    exact .none
  · intro payload member
    cases member
  · exact List.nodup_nil
  · intro taken member
    cases member

end System

/-- At every reachable node an accepted object is analysed properly exactly when its
chain is empty.  While all insertions meet empty chains, the listeners share each
payload once, and announce and handle what they share once. -/
theorem processObj_once_iff {sys : System} (reachable : System.Reachable platform sys) :
    (∀ (draws : Draws platform) (uninit : Uninit) (packet : Packet) (obj : Object),
      Object.ofPacket packet = .ok obj → Node.validateObj platform draws.now obj = .ok true →
        (Node.AnalysedOnce draws uninit sys.node obj ↔
          sys.node.chainOf platform obj.messagePayload = [])) ∧
    ((∀ i, sys.listeners i = .idle) → ∀ (trace : List (System × Event)) (after : System),
      Run (System.Step platform) sys trace after →
        (∀ taken ∈ trace, System.MeetsEmptyChain platform taken.1 taken.2) →
          (∀ i, Calls i (System.eventsOf i trace) (after.listeners i)) ∧
          (System.payloads trace).Nodup ∧
          (∀ payload ∈ System.payloads trace, after.node.sharedObj.Stored payload) ∧
          ∀ taken ∈ trace, ∀ payload ∈ taken.2.shared?,
            ¬taken.1.node.sharedObj.Stored payload) := by
  constructor
  · intro draws uninit packet obj _ valid
    exact reachable.sound.analysedOnce_iff valid
  · intro free trace after run meets
    have analysed := System.Analysed.run reachable free run meets
    exact ⟨analysed.calls, analysed.once, analysed.stored, analysed.absent⟩

theorem Object.ofPacket_sample : Object.ofPacket Packet.sample = .ok Object.sample := by
  decide +kernel

theorem Object.valid_sample :
    Node.validateObj Platform.sample Draws.sample.now Object.sample = .ok true := by
  decide +kernel

/-- The node before the request, and a call that processes it. -/
theorem processObj_once_sample :
    Node.AnalysedOnce Draws.sample ⟨0, 0, 0, 0⟩ Node.new Object.sample ∧
      ∀ after, System.Step Platform.sample (.idle Node.new) (.insert 0 Object.sample) after →
        after.node.sharedObj.Stored Object.sample.messagePayload := by
  have both := processObj_once_iff (@System.Reachable.start Platform.sample)
  constructor
  · exact (both.1 Draws.sample ⟨0, 0, 0, 0⟩ _ _ Object.ofPacket_sample Object.valid_sample).mpr rfl
  · intro after step
    have run := Run.next .nil step
    refine (both.2 (fun _ => rfl) _ after run ?_).2.2.1 _ List.mem_cons_self
    intro taken member payload _
    rw [List.mem_singleton.mp member]
    rfl

/-- Behind the first insertion the same object is not analysed properly. -/
theorem processObj_twice_sample :
    ∃ sys : System, System.Reachable Platform.sample sys ∧
      Object.ofPacket Packet.sample = .ok Object.sample ∧
      Node.validateObj Platform.sample Draws.sample.now Object.sample = .ok true ∧
      ¬Node.AnalysedOnce Draws.sample ⟨0, 0, 0, 0⟩ sys.node Object.sample := by
  have reachable := System.Reachable.step .start
    (@System.Step.insert Platform.sample (.idle Node.new) 0 Draws.sample _ _ rfl
      Object.ofPacket_sample Object.valid_sample)
  refine ⟨_, reachable, Object.ofPacket_sample, Object.valid_sample, ?_⟩
  rw [reachable.sound.analysedOnce_iff Object.valid_sample]
  obtain ⟨node, member, _⟩ := HashTable.exists_mem_insert Node.new.sharedObj []
    Object.sample.messagePayload
    (Node.inventoryHash Platform.sample Object.sample.messagePayload).toUString
  exact List.ne_nil_of_mem member

end BitMRC

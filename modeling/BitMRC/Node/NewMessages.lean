import BitMRC.Foundation.Transition
import BitMRC.Node.Delivery
import BitMRC.Utils.HashTableMap

/-!
# Each message is delivered once

Both `decryptMsg` insert an accepted message into `messages` and push it to
`new_messages` when it was not there yet.  Listeners run these calls side by side:
the table is locked during the insertion only, so that whatever other listeners do
can come between a check, the insertion and the push.
-/

namespace BitMRC

open Foundation UString

variable {platform : Platform}

namespace Node

/-! ## A call in three parts -/

/-- `storeMessage` up to the insertion: the message and the entry of its sender. -/
def composeMessage (platform : Platform) (uninit : Uninit) (self : Node) (sender : Sender)
    («to» message sign : UString) : Except Exn (Message × Node) := do
  let addr ← buildAddressFromKeys platform sender.pubSigningKey sender.pubEncryptionKey
    sender.stream sender.version
  let (_, «from») ← (PubAddr.new uninit).loadAddr platform addr
  let («from») := («from».loadKeys sender.pubSigningKey sender.pubEncryptionKey sender.nonce
    sender.extra).2
  return ({ «from» := addr, «to», info := message, signature := sign }, self.addAddr «from»)

/-- `this->messages.insert(Mess, sign)`. -/
def insertMessage (self : Node) (buffer : UString) (mess : Message) : Int × Node :=
  let (ret, messages) := self.messages.insert buffer mess mess.signature
  (ret, { self with messages })

/-- `this->new_messages.push(Mess)`. -/
def pushMessage (self : Node) (mess : Message) : Node :=
  { self with newMessages := self.newMessages ++ [mess] }

/-- What is left of a call once it has its message. -/
def finishMessage (self : Node) (buffer : UString) (mess : Message) : Node :=
  let (ret, self) := self.insertMessage buffer mess
  if ret ≠ 0 then self.pushMessage mess else self

/-- `decryptMsg(packet_msg)` on a decrypted text, up to the insertion; without a message
the call is over. -/
def prepareAccepted {platform : Platform} (draws : Draws platform) (uninit : Uninit)
    (self : Node) (msg : PacketMsg) (own : Addr) (recovered : UString) :
    Except Exn (Option Message × Node) := do
  let plain ← readMsgPlain.value recovered 0
  if plain.destRipe ≠ own.base.ripe then
    return (none, self)
  else if ← checkSigned platform msg.messagePayload [] recovered plain.sender.pubSigningKey
      plain.sign plain.k then
    let self ← self.propagateAck draws plain.ackData
    tryCatchAll (do
      let (mess, self) ← self.composeMessage platform uninit plain.sender own.base.address
        plain.message plain.sign
      return (some mess, self))
      (.ok (none, self))
  else
    return (none, self)

/-- `decryptMsg(packet_msg)` up to the insertion. -/
def prepareMsg {platform : Platform} (draws : Draws platform) (uninit : Uninit) (self : Node)
    (msg : PacketMsg) : Except Exn (Option Message × Node) :=
  match decryptWith platform msg.objectPayload self.privAddresses with
  | none => .ok (none, self)
  | some (own, recovered) =>
      tryCatchAll (self.prepareAccepted draws uninit msg own recovered) (.ok (none, self))

/-- `decryptMsg(packet_broadcast)` up to the insertion. -/
def prepareBroadcast (platform : Platform) (uninit : Uninit) (self : Node)
    (msg : PacketBroadcast) : Except Exn (Option Message × Node) :=
  match decryptBroadcastWith platform msg self.subscriptions with
  | none => .ok (none, self)
  | some (_, recovered) =>
      tryCatchAll (do
        let plain ← readBroadcastPlain.value recovered 0
        if ← checkSigned platform msg.messagePayload (signedTag msg) recovered
            plain.sender.pubSigningKey plain.sign plain.k then
          let (mess, self) ← self.composeMessage platform uninit plain.sender broadcastRecipient
            plain.message plain.sign
          return (some mess, self)
        else
          return (none, self))
        (.ok (none, self))

/-- The rest of a call that was prepared. -/
def finish (buffer : UString) : Option Message × Node → Bool × Node
  | (none, self) => (false, self)
  | (some mess, self) => (true, self.finishMessage buffer mess)

/-! ## The parts make up the call -/

variable (draws : Draws platform) (uninit : Uninit) (self : Node)

theorem storeMessage_eq (sender : Sender) (recipient message sign : UString) :
    self.storeMessage draws uninit sender recipient message sign =
      (self.composeMessage platform uninit sender recipient message sign).map fun found =>
        found.2.finishMessage draws.buffer found.1 := by
  unfold storeMessage composeMessage
  cases buildAddressFromKeys platform sender.pubSigningKey sender.pubEncryptionKey
      sender.stream sender.version with
  | error failure => rfl
  | ok addr =>
      simp only [bind, Except.bind]
      cases (PubAddr.new uninit).loadAddr platform addr with
      | error failure => rfl
      | ok loaded =>
          simp only [pure, Except.pure, Except.map, finishMessage, insertMessage, pushMessage]
          exact (apply_ite Except.ok _ _ _).symm

theorem tryCatchAll_map {α β : Type} (attempt handler : Except Exn α) (f : α → β) :
    (tryCatchAll attempt handler).map f = tryCatchAll (attempt.map f) (handler.map f) := by
  cases attempt with
  | error failure => cases failure <;> rfl
  | ok value => rfl

/-- Storing what was composed. -/
theorem composeMessage_finish (sender : Sender) (recipient message sign : UString) :
    (do
      let (mess, self) ← self.composeMessage platform uninit sender recipient message sign
      return (some mess, self) : Except Exn (Option Message × Node)).map (finish draws.buffer) =
    (do
      let self ← self.storeMessage draws uninit sender recipient message sign
      return (true, self)) := by
  rw [storeMessage_eq]
  cases self.composeMessage platform uninit sender recipient message sign with
  | error failure => rfl
  | ok found => rfl

/-- `decryptMsg(packet_msg)` is its preparation and its end. -/
theorem decryptMsg_eq (msg : PacketMsg) : self.decryptMsg draws uninit msg =
    (self.prepareMsg draws uninit msg).map (finish draws.buffer) := by
  unfold decryptMsg prepareMsg
  cases decryptWith platform msg.objectPayload self.privAddresses with
  | none => rfl
  | some opened =>
      rcases opened with ⟨own, recovered⟩
      simp only [tryCatchAll_map]
      congr 1
      unfold acceptMsg prepareAccepted
      cases readMsgPlain.value recovered 0 with
      | error failure => rfl
      | ok plain =>
          simp only [bind, Except.bind]
          split
          next => rfl
          next =>
            cases checkSigned platform msg.messagePayload [] recovered plain.sender.pubSigningKey
                plain.sign plain.k with
            | error failure => rfl
            | ok verified =>
                cases verified with
                | false => rfl
                | true =>
                    cases self.propagateAck draws plain.ackData with
                    | error failure => rfl
                    | ok acked =>
                        simp only [if_true]
                        have stored := composeMessage_finish draws uninit acked plain.sender
                          own.base.address plain.message plain.sign
                        simp only [bind, Except.bind] at stored
                        rw [tryCatchAll_map, stored]
                        rfl

/-- `decryptMsg(packet_broadcast)` is its preparation and its end. -/
theorem decryptBroadcast_eq (msg : PacketBroadcast) : self.decryptBroadcast draws uninit msg =
    (self.prepareBroadcast platform uninit msg).map (finish draws.buffer) := by
  unfold decryptBroadcast prepareBroadcast
  cases decryptBroadcastWith platform msg self.subscriptions with
  | none => rfl
  | some opened =>
      rcases opened with ⟨subscription, recovered⟩
      simp only [tryCatchAll_map]
      congr 1
      unfold acceptBroadcast
      cases readBroadcastPlain.value recovered 0 with
      | error failure => rfl
      | ok plain =>
          simp only [bind, Except.bind]
          cases checkSigned platform msg.messagePayload (signedTag msg) recovered
              plain.sender.pubSigningKey plain.sign plain.k with
          | error failure => rfl
          | ok verified =>
              cases verified with
              | false => rfl
              | true =>
                  have stored := composeMessage_finish draws uninit self plain.sender
                    broadcastRecipient plain.message plain.sign
                  simp only [bind, Except.bind] at stored
                  simp only [if_true]
                  rw [stored]

/-! ## What a preparation leaves alone -/

variable {draws uninit self}

theorem propagateAck_messages {ackData : UString} {after : Node}
    (result : self.propagateAck draws ackData = .ok after) :
    after.messages = self.messages ∧ after.newMessages = self.newMessages := by
  unfold propagateAck at result
  obtain ⟨ack, _, result⟩ := bind_eq_ok.mp result
  obtain ⟨obj, _, result⟩ := bind_eq_ok.mp result
  unfold propagate at result
  obtain ⟨valid, _, result⟩ := bind_eq_ok.mp result
  split at result
  next =>
    cases result
    exact ⟨rfl, rfl⟩
  next =>
    cases result
    exact ⟨rfl, rfl⟩

theorem composeMessage_messages {sender : Sender} {recipient message sign : UString}
    {found : Message × Node}
    (result : self.composeMessage platform uninit sender recipient message sign = .ok found) :
    found.2.messages = self.messages ∧ found.2.newMessages = self.newMessages := by
  unfold composeMessage at result
  obtain ⟨addr, _, result⟩ := bind_eq_ok.mp result
  obtain ⟨loaded, _, result⟩ := bind_eq_ok.mp result
  cases result
  exact ⟨rfl, rfl⟩

theorem prepareMsg_messages {msg : PacketMsg} {found : Option Message × Node}
    (result : self.prepareMsg draws uninit msg = .ok found) :
    found.2.messages = self.messages ∧ found.2.newMessages = self.newMessages := by
  unfold prepareMsg at result
  split at result
  next =>
    cases result
    exact ⟨rfl, rfl⟩
  next own recovered _ =>
    rcases tryCatchAll_eq_ok result with accepted | refused
    · unfold prepareAccepted at accepted
      obtain ⟨plain, _, accepted⟩ := bind_eq_ok.mp accepted
      split at accepted
      next =>
        cases accepted
        exact ⟨rfl, rfl⟩
      obtain ⟨verified, _, accepted⟩ := bind_eq_ok.mp accepted
      split at accepted
      next =>
        obtain ⟨acked, ack, accepted⟩ := bind_eq_ok.mp accepted
        have same := propagateAck_messages ack
        rcases tryCatchAll_eq_ok accepted with composed | refused
        · obtain ⟨found, compose, composed⟩ := bind_eq_ok.mp composed
          cases composed
          rw [← same.1, ← same.2]
          exact composeMessage_messages compose
        · cases refused
          exact same
      next =>
        cases accepted
        exact ⟨rfl, rfl⟩
    · cases refused
      exact ⟨rfl, rfl⟩

theorem prepareBroadcast_messages {msg : PacketBroadcast} {found : Option Message × Node}
    (result : self.prepareBroadcast platform uninit msg = .ok found) :
    found.2.messages = self.messages ∧ found.2.newMessages = self.newMessages := by
  unfold prepareBroadcast at result
  split at result
  next =>
    cases result
    exact ⟨rfl, rfl⟩
  next subscription recovered _ =>
    rcases tryCatchAll_eq_ok result with accepted | refused
    · obtain ⟨plain, _, accepted⟩ := bind_eq_ok.mp accepted
      obtain ⟨verified, _, accepted⟩ := bind_eq_ok.mp accepted
      split at accepted
      next =>
        obtain ⟨composed, compose, accepted⟩ := bind_eq_ok.mp accepted
        cases accepted
        exact composeMessage_messages compose
      next =>
        cases accepted
        exact ⟨rfl, rfl⟩
    · cases refused
      exact ⟨rfl, rfl⟩

/-- Only a decoded signature is verified. -/
theorem berDecode_of_checkSigned {payload tag recovered pubSigningKey sign : UString} {k : Nat}
    (verified : checkSigned platform payload tag recovered pubSigningKey sign k = .ok true) :
    ∃ signature, platform.berDecode sign = some signature := by
  unfold checkSigned at verified
  obtain ⟨point, _, verified⟩ := bind_eq_ok.mp verified
  obtain ⟨header, _, verified⟩ := bind_eq_ok.mp verified
  obtain ⟨text, _, verified⟩ := bind_eq_ok.mp verified
  unfold verifySignature at verified
  split at verified
  next => cases verified
  next signature decoded => exact ⟨signature, decoded⟩

theorem composeMessage_signature {sender : Sender} {recipient message sign : UString}
    {found : Message × Node}
    (result : self.composeMessage platform uninit sender recipient message sign = .ok found) :
    found.1.signature = sign := by
  unfold composeMessage at result
  obtain ⟨addr, _, result⟩ := bind_eq_ok.mp result
  obtain ⟨loaded, _, result⟩ := bind_eq_ok.mp result
  cases result
  rfl

theorem prepareBroadcast_signature {msg : PacketBroadcast} {mess : Message} {after : Node}
    (result : self.prepareBroadcast platform uninit msg = .ok (some mess, after)) :
    ∃ signature, platform.berDecode mess.signature = some signature := by
  unfold prepareBroadcast at result
  split at result
  next => cases result
  next subscription recovered _ =>
    rcases tryCatchAll_eq_ok result with accepted | refused
    · obtain ⟨plain, _, accepted⟩ := bind_eq_ok.mp accepted
      obtain ⟨verified, check, accepted⟩ := bind_eq_ok.mp accepted
      split at accepted
      next yes =>
        obtain ⟨composed, compose, accepted⟩ := bind_eq_ok.mp accepted
        cases accepted
        subst yes
        rw [composeMessage_signature compose]
        exact berDecode_of_checkSigned check
      next => cases accepted
    · cases refused

end Node

/-! ## Listeners side by side -/

/-- How far a listener is with a message. -/
inductive Delivery where
  | idle
  /-- Accepted, and not inserted yet. -/
  | prepared (mess : Message)
  /-- Inserted as a new one, and not pushed yet. -/
  | inserted (mess : Message)

/-- Where a listener stands after the first part of a call. -/
def Delivery.ofPrepared : Option Message → Delivery
  | none => .idle
  | some mess => .prepared mess

structure Deliveries where
  node : Node
  listeners : Nat → Delivery

inductive DeliveryEvent where
  | prepare (listener : Nat)
  | insert (listener : Nat) (mess : Message)
  | push (listener : Nat) (mess : Message)
  | other

/-- The message that a step pushes. -/
def DeliveryEvent.pushed? : DeliveryEvent → Option Message
  | push _ mess => some mess
  | _ => none

namespace Deliveries

/-- The listener `i` goes on. -/
def proceed (sys : Deliveries) (i : Nat) (phase : Delivery) (node : Node) : Deliveries :=
  ⟨node, Function.update sys.listeners i phase⟩

inductive Step (platform : Platform) : Deliveries → DeliveryEvent → Deliveries → Prop
  | message {sys : Deliveries} {i : Nat} {draws : Draws platform} {uninit : Uninit}
      {msg : PacketMsg} {found : Option Message × Node} (free : sys.listeners i = .idle)
      (result : sys.node.prepareMsg draws uninit msg = .ok found) :
      Step platform sys (.prepare i) (sys.proceed i (.ofPrepared found.1) found.2)
  | broadcast {sys : Deliveries} {i : Nat} {uninit : Uninit} {msg : PacketBroadcast}
      {found : Option Message × Node} (free : sys.listeners i = .idle)
      (result : sys.node.prepareBroadcast platform uninit msg = .ok found) :
      Step platform sys (.prepare i) (sys.proceed i (.ofPrepared found.1) found.2)
  | insert {sys : Deliveries} {i : Nat} {mess : Message} (buffer : UString)
      (prepared : sys.listeners i = .prepared mess) :
      Step platform sys (.insert i mess)
        (sys.proceed i
          (if (sys.node.insertMessage buffer mess).1 ≠ 0 then .inserted mess else .idle)
          (sys.node.insertMessage buffer mess).2)
  | push {sys : Deliveries} {i : Nat} {mess : Message}
      (inserted : sys.listeners i = .inserted mess) :
      Step platform sys (.push i mess) (sys.proceed i .idle (sys.node.pushMessage mess))
  /-- Anything else; messages are taken from the queue. -/
  | other {sys : Deliveries} {after : Node} (messages : after.messages = sys.node.messages)
      (newMessages : after.newMessages <:+ sys.node.newMessages) :
      Step platform sys .other { sys with node := after }

/-- The messages that were pushed in a run. -/
def pushed (trace : List (Deliveries × DeliveryEvent)) : List Message :=
  trace.filterMap fun taken => taken.2.pushed?

/-- A signature is long enough for `hash_f` to ignore its buffer. -/
def LongSigned (_ : Deliveries) (event : DeliveryEvent) : Prop :=
  ∀ i mess, event = .insert i mess → 4 ≤ mess.signature.length

/-- What a run keeps: the table holds the pushed messages and those that are about to
be pushed, each by one listener. -/
structure Delivered (trace : List (Deliveries × DeliveryEvent)) (sys : Deliveries)
    (map : ContentMap Message) : Prop where
  holds : sys.node.messages.Holds (hashF []) Message.signature map
  once : (pushed trace).Nodup
  stored : ∀ mess, mess ∈ map.contents ↔
    mess ∈ pushed trace ∨ ∃ i, sys.listeners i = .inserted mess
  pending : ∀ i mess, sys.listeners i = .inserted mess → mess ∉ pushed trace
  single : ∀ i j mess, sys.listeners i = .inserted mess → sys.listeners j = .inserted mess → i = j

theorem pushed_append (trace : List (Deliveries × DeliveryEvent)) (sys : Deliveries)
    (event : DeliveryEvent) :
    pushed (trace ++ [(sys, event)]) = pushed trace ++ event.pushed?.toList := by
  rw [pushed, List.filterMap_append, pushed]
  cases event <;> rfl

variable {trace : List (Deliveries × DeliveryEvent)} {sys after : Deliveries}
  {event : DeliveryEvent} {map : ContentMap Message}

/-- A step that pushes nothing and inserts nothing new. -/
theorem Delivered.of_same (delivered : Delivered trace sys map)
    (holds : after.node.messages.Holds (hashF []) Message.signature map)
    (nothing : event.pushed? = none)
    (same : ∀ j mess, after.listeners j = .inserted mess ↔ sys.listeners j = .inserted mess) :
    Delivered (trace ++ [(sys, event)]) after map := by
  have pushedEq : pushed (trace ++ [(sys, event)]) = pushed trace := by
    rw [pushed_append, nothing]
    exact List.append_nil _
  constructor
  · exact holds
  · rw [pushedEq]
    exact delivered.once
  · intro mess
    rw [pushedEq, delivered.stored]
    simp only [same]
  · intro i mess found
    rw [pushedEq]
    exact delivered.pending i mess ((same i mess).mp found)
  · intro i j mess left right
    exact delivered.single i j mess ((same i mess).mp left) ((same j mess).mp right)

/-- Who has a message to push when the listener `i` has gone on. -/
theorem proceed_inserted_iff (i : Nat) (phase : Delivery) (node : Node) (j : Nat)
    (mess : Message) : (sys.proceed i phase node).listeners j = .inserted mess ↔
      j = i ∧ phase = .inserted mess ∨ j ≠ i ∧ sys.listeners j = .inserted mess := by
  by_cases here : j = i
  · subst here
    simp [proceed]
  · simp [proceed, here]

/-- A listener that has no message to push, before and after. -/
theorem proceed_inserted {i : Nat} {phase : Delivery} {node : Node}
    (before : ∀ mess, sys.listeners i ≠ .inserted mess)
    (behind : ∀ mess, phase ≠ .inserted mess) (j : Nat) (mess : Message) :
    (sys.proceed i phase node).listeners j = .inserted mess ↔
      sys.listeners j = .inserted mess := by
  rw [proceed_inserted_iff]
  constructor
  · rintro (⟨_, found⟩ | ⟨_, found⟩)
    · exact absurd found (behind mess)
    · exact found
  · intro found
    refine .inr ⟨?_, found⟩
    rintro rfl
    exact before mess found

theorem Delivered.prepare (delivered : Delivered trace sys map) {i : Nat}
    {found : Option Message × Node} (free : sys.listeners i = .idle)
    (messages : found.2.messages = sys.node.messages) :
    Delivered (trace ++ [(sys, .prepare i)]) (sys.proceed i (.ofPrepared found.1) found.2) map := by
  have holds : (sys.proceed i (.ofPrepared found.1) found.2).node.messages.Holds (hashF [])
      Message.signature map := by
    rw [proceed, messages]
    exact delivered.holds
  refine delivered.of_same holds rfl (proceed_inserted ?_ ?_)
  · intro mess inserted
    rw [free] at inserted
    cases inserted
  · intro mess inserted
    cases composed : found.1 with
    | none =>
        rw [composed] at inserted
        cases inserted
    | some other =>
        rw [composed] at inserted
        cases inserted

/-- From four bytes on every buffer selects the same chain. -/
theorem insertMessage_eq (node : Node) (buffer : UString) {mess : Message}
    (long : 4 ≤ mess.signature.length) :
    (node.insertMessage buffer mess).1 =
        (node.messages.insertBy (hashF []) mess mess.signature).1 ∧
      (node.insertMessage buffer mess).2.messages =
        (node.messages.insertBy (hashF []) mess mess.signature).2 := by
  have same := node.messages.insert_eq_of_four_le buffer mess long
  exact ⟨congrArg Prod.fst same, congrArg Prod.snd same⟩

/-- The insertion of a message that the table did not hold. -/
theorem Delivered.insert_new (delivered : Delivered trace sys map) {i : Nat} {mess : Message}
    (prepared : sys.listeners i = .prepared mess) {node : Node}
    (holds : node.messages.Holds (hashF []) Message.signature (map.insert mess))
    (new : mess ∉ map.contents) :
    Delivered (trace ++ [(sys, .insert i mess)]) (sys.proceed i (.inserted mess) node)
      (map.insert mess) := by
  have pushedEq : pushed (trace ++ [(sys, .insert i mess)]) = pushed trace := by
    rw [pushed_append]
    exact List.append_nil _
  have absent : ∀ j, sys.listeners j ≠ .inserted mess := fun j waits =>
    new ((delivered.stored mess).mpr (.inr ⟨j, waits⟩))
  constructor
  · exact holds
  · rw [pushedEq]
    exact delivered.once
  · intro other
    rw [pushedEq, ContentMap.mem_insert, delivered.stored]
    simp only [proceed_inserted_iff]
    constructor
    · rintro ((found | ⟨j, waits⟩) | rfl)
      · exact .inl found
      · refine .inr ⟨j, .inr ⟨?_, waits⟩⟩
        rintro rfl
        cases prepared.symm.trans waits
      · exact .inr ⟨i, .inl ⟨rfl, rfl⟩⟩
    · rintro (found | ⟨j, ⟨_, ⟨⟩⟩ | ⟨_, waits⟩⟩)
      · exact .inl (.inl found)
      · exact .inr rfl
      · exact .inl (.inr ⟨j, waits⟩)
  · intro j other waits
    rw [pushedEq]
    rcases (proceed_inserted_iff i _ node j other).mp waits with ⟨_, ⟨⟩⟩ | ⟨_, waits⟩
    · exact fun found => new ((delivered.stored mess).mpr (.inl found))
    · exact delivered.pending j other waits
  · intro j k other left right
    rcases (proceed_inserted_iff i _ node j other).mp left with ⟨leftHere, ⟨⟩⟩ | ⟨_, leftBefore⟩
    · rcases (proceed_inserted_iff i _ node k mess).mp right with ⟨rightHere, _⟩ | ⟨_, rightBefore⟩
      · exact leftHere.trans rightHere.symm
      · exact absurd rightBefore (absent k)
    · rcases (proceed_inserted_iff i _ node k other).mp right with ⟨_, ⟨⟩⟩ | ⟨_, rightBefore⟩
      · exact absurd leftBefore (absent j)
      · exact delivered.single j k other leftBefore rightBefore

/-- An insertion finds out whether its message was there. -/
theorem Delivered.insert (delivered : Delivered trace sys map) {i : Nat} {mess : Message}
    (prepared : sys.listeners i = .prepared mess) (buffer : UString)
    (long : 4 ≤ mess.signature.length) :
    Delivered (trace ++ [(sys, .insert i mess)])
      (sys.proceed i (if (sys.node.insertMessage buffer mess).1 ≠ 0 then .inserted mess else .idle)
        (sys.node.insertMessage buffer mess).2) (map.insert mess) := by
  obtain ⟨code, table⟩ := insertMessage_eq sys.node buffer long
  have holds := delivered.holds.insertBy mess
  rw [← table] at holds
  have duplicate := delivered.holds.insertBy_fst_eq_zero_iff mess
  rw [← code] at duplicate
  by_cases old : mess ∈ map.contents
  · rw [if_neg (not_not.mpr (duplicate.mpr old))]
    rw [ContentMap.insert_of_mem old] at holds ⊢
    refine delivered.of_same holds rfl (proceed_inserted ?_ fun _ => nofun)
    intro other inserted
    cases prepared.symm.trans inserted
  · rw [if_pos (mt duplicate.mp old)]
    exact delivered.insert_new prepared holds old

/-- A push hands over the one message of its listener. -/
theorem Delivered.push (delivered : Delivered trace sys map) {i : Nat} {mess : Message}
    (inserted : sys.listeners i = .inserted mess) :
    Delivered (trace ++ [(sys, .push i mess)]) (sys.proceed i .idle (sys.node.pushMessage mess))
      map := by
  have pushedEq : pushed (trace ++ [(sys, .push i mess)]) = pushed trace ++ [mess] := by
    rw [pushed_append]
    rfl
  have others : ∀ j other, (sys.proceed i .idle (sys.node.pushMessage mess)).listeners j =
      .inserted other ↔ j ≠ i ∧ sys.listeners j = .inserted other := by
    intro j other
    simp [proceed_inserted_iff]
  constructor
  · exact delivered.holds
  · rw [pushedEq]
    exact delivered.once.append (List.nodup_singleton mess)
      (List.disjoint_singleton.mpr (delivered.pending i mess inserted))
  · intro other
    rw [pushedEq, delivered.stored, List.mem_append, List.mem_singleton]
    simp only [others]
    constructor
    · rintro (found | ⟨j, waits⟩)
      · exact .inl (.inl found)
      · by_cases here : j = i
        · subst here
          rw [inserted] at waits
          cases waits
          exact .inl (.inr rfl)
        · exact .inr ⟨j, here, waits⟩
    · rintro ((found | rfl) | ⟨j, _, waits⟩)
      · exact .inl found
      · exact .inr ⟨i, inserted⟩
      · exact .inr ⟨j, waits⟩
  · intro j other waits
    obtain ⟨different, before⟩ := (others j other).mp waits
    rw [pushedEq, List.mem_append, List.mem_singleton]
    rintro (found | rfl)
    · exact delivered.pending j other before found
    · exact different (delivered.single j i other before inserted)
  · intro j k other left right
    exact delivered.single j k other ((others j other).mp left).2 ((others k other).mp right).2

/-- A step of one listener keeps the account of delivered messages. -/
theorem Delivered.step (delivered : Delivered trace sys map) (long : LongSigned sys event)
    (move : Step platform sys event after) :
    ∃ map, Delivered (trace ++ [(sys, event)]) after map := by
  cases move with
  | message free result => exact ⟨map, delivered.prepare free (Node.prepareMsg_messages result).1⟩
  | broadcast free result =>
      exact ⟨map, delivered.prepare free (Node.prepareBroadcast_messages result).1⟩
  | @insert i mess buffer prepared =>
      exact ⟨map.insert mess, delivered.insert prepared buffer (long i mess rfl)⟩
  | push inserted => exact ⟨map, delivered.push inserted⟩
  | other messages newMessages =>
      exact ⟨map, delivered.of_same (messages ▸ delivered.holds) rfl fun _ _ => Iff.rfl⟩

/-- All runs that begin with an empty table and no call. -/
theorem Delivered.run {node : Node} (start : node.messages = HashTable.empty)
    (run : Run (Step platform) ⟨node, fun _ => .idle⟩ trace sys)
    (long : ∀ taken ∈ trace, LongSigned taken.1 taken.2) :
    ∃ map, Delivered trace sys map := by
  apply @Run.invariant Deliveries DeliveryEvent _ _ _ _ LongSigned
    (fun trace sys => ∃ map, Delivered trace sys map) _ _ run long
  · refine ⟨ContentMap.empty, ?holds, List.nodup_nil, ?stored, nofun, nofun⟩
    case holds =>
      rw [start]
      exact HashTable.holds_empty
    case stored =>
      intro mess
      constructor
      · exact fun found => absurd found List.not_mem_nil
      · rintro (found | ⟨_, ⟨⟩⟩)
        exact absurd found List.not_mem_nil
  · rintro trace state event after _ ⟨map, delivered⟩ meets move
    exact delivered.step meets move

theorem Delivered.stored_iff (delivered : Delivered trace sys map) (mess : Message) :
    sys.node.messages.Stored mess ↔
      mess ∈ pushed trace ∨ ∃ i, sys.listeners i = .inserted mess := by
  rw [← delivered.stored]
  constructor
  · rintro ⟨i, found, member, rfl⟩
    obtain ⟨info, stored, _, rfl⟩ := delivered.holds.mem_table.mp member
    exact stored
  · intro stored
    exact ⟨_, _, delivered.holds.mem_table.mpr ⟨mess, stored, rfl, rfl⟩, rfl⟩

/-! ## Whole calls -/

theorem proceed_proceed (i : Nat) (first second : Delivery) (between last : Node) :
    (sys.proceed i first between).proceed i second last = sys.proceed i second last := by
  simp only [proceed, Function.update_idem]

theorem proceed_idle {i : Nat} (free : sys.listeners i = .idle) (node : Node) :
    sys.proceed i .idle node = { sys with node } := by
  rw [proceed, ← free, Function.update_eq_self]

/-- One listener goes through the parts of its call. -/
theorem exists_run {i : Nat} (free : sys.listeners i = .idle) {found : Option Message × Node}
    (buffer : UString)
    (prepare : Step platform sys (.prepare i) (sys.proceed i (.ofPrepared found.1) found.2)) :
    ∃ trace, Run (Step platform) sys trace { sys with node := (Node.finish buffer found).2 } ∧
      ∀ taken ∈ trace, ∀ j mess, taken.2 = .insert j mess → found.1 = some mess := by
  rcases found with ⟨_ | mess, prepared⟩
  · refine ⟨[(sys, .prepare i)], ?_, ?_⟩
    · have run := Run.nil.next prepare
      rwa [Delivery.ofPrepared, proceed_idle free] at run
    · intro taken member j mess inserts
      rw [List.mem_singleton.mp member] at inserts
      cases inserts
  · have insertion : Step platform (sys.proceed i (.prepared mess) prepared) (.insert i mess)
        (sys.proceed i
          (if (prepared.insertMessage buffer mess).1 ≠ 0 then .inserted mess else .idle)
          (prepared.insertMessage buffer mess).2) := by
      have move := @Step.insert platform (sys.proceed i (.prepared mess) prepared) i mess
        buffer (Function.update_self ..)
      rw [proceed_proceed] at move
      exact move
    have run := (Run.nil.next prepare).next insertion
    have ended : (Node.finish buffer (some mess, prepared)).2 =
        prepared.finishMessage buffer mess := rfl
    rw [ended, Node.finishMessage]
    by_cases new : (prepared.insertMessage buffer mess).1 ≠ 0
    · rw [if_pos new] at run
      simp only [if_pos new]
      have push := @Step.push platform
        (sys.proceed i (.inserted mess) (prepared.insertMessage buffer mess).2) i mess
        (Function.update_self ..)
      rw [proceed_proceed, proceed_idle free] at push
      refine ⟨_, run.next push, ?_⟩
      intro taken member j other inserts
      simp only [List.mem_append, List.mem_singleton, List.not_mem_nil, false_or] at member
      rcases member with (rfl | rfl) | rfl
      · cases inserts
      · cases inserts
        rfl
      · cases inserts
    · rw [if_neg new, proceed_idle free] at run
      simp only [if_neg new]
      refine ⟨_, run, ?_⟩
      intro taken member j other inserts
      simp only [List.mem_append, List.mem_singleton, List.not_mem_nil, false_or] at member
      rcases member with rfl | rfl
      · cases inserts
      · cases inserts
        rfl

/-- A whole `decryptMsg(packet_msg)` is a run of its listener. -/
theorem decryptMsg_run {i : Nat} (free : sys.listeners i = .idle) {draws : Draws platform}
    {uninit : Uninit} {msg : PacketMsg} {flag : Bool} {after : Node}
    (result : sys.node.decryptMsg draws uninit msg = .ok (flag, after)) :
    ∃ trace, Run (Step platform) sys trace { sys with node := after } := by
  rw [Node.decryptMsg_eq] at result
  cases prepared : sys.node.prepareMsg draws uninit msg with
  | error failure =>
      rw [prepared] at result
      cases result
  | ok found =>
      rw [prepared] at result
      obtain ⟨trace, run, _⟩ := exists_run free draws.buffer (.message free prepared)
      rw [Except.ok.inj result] at run
      exact ⟨trace, run⟩

/-- A whole `decryptMsg(packet_broadcast)` is a run of its listener, which inserts only
a message with a decoded signature. -/
theorem decryptBroadcast_run {i : Nat} (free : sys.listeners i = .idle) {draws : Draws platform}
    {uninit : Uninit} {msg : PacketBroadcast} {flag : Bool} {after : Node}
    (result : sys.node.decryptBroadcast draws uninit msg = .ok (flag, after)) :
    ∃ trace, Run (Step platform) sys trace { sys with node := after } ∧
      ∀ taken ∈ trace, ∀ j mess, taken.2 = .insert j mess →
        ∃ signature, platform.berDecode mess.signature = some signature := by
  rw [Node.decryptBroadcast_eq] at result
  cases prepared : sys.node.prepareBroadcast platform uninit msg with
  | error failure =>
      rw [prepared] at result
      cases result
  | ok found =>
      rw [prepared] at result
      obtain ⟨trace, run, own⟩ := exists_run free draws.buffer (.broadcast free prepared)
      rw [Except.ok.inj result] at run
      refine ⟨trace, run, ?_⟩
      intro taken member j mess inserts
      have composed := own taken member j mess inserts
      have named : found = (some mess, found.2) := Prod.ext composed rfl
      rw [named] at prepared
      exact Node.prepareBroadcast_signature prepared

/-! ## The result -/

/-- No message is pushed twice, and the pushed messages are the stored ones, but for
those that a listener has inserted and is about to push. -/
theorem messages_once {node : Node} (start : node.messages = HashTable.empty)
    (run : Run (Step platform) ⟨node, fun _ => .idle⟩ trace sys)
    (long : ∀ taken ∈ trace, LongSigned taken.1 taken.2) :
    (pushed trace).Nodup ∧
    (∀ mess, sys.node.messages.Stored mess ↔
      mess ∈ pushed trace ∨ ∃ i, sys.listeners i = .inserted mess) ∧
    ((∀ i, sys.listeners i = .idle) →
      ∀ mess, sys.node.messages.Stored mess ↔ mess ∈ pushed trace) := by
  obtain ⟨map, delivered⟩ := Delivered.run start run long
  refine ⟨delivered.once, delivered.stored_iff, ?_⟩
  intro done mess
  rw [delivered.stored_iff]
  constructor
  · rintro (found | ⟨i, waits⟩)
    · exact found
    · rw [done i] at waits
      cases waits
  · exact .inl

/-- A subscriber takes one broadcast on the sample platform. -/
theorem messages_once_sample :
    ∃ trace sys, Run (Step Platform.sample) ⟨Node.sampleSubscriber, fun _ => .idle⟩ trace sys ∧
      (∃ mess ∈ pushed trace, mess.info = [104, 105]) ∧ (pushed trace).Nodup ∧
      ∀ mess, sys.node.messages.Stored mess ↔ mess ∈ pushed trace := by
  have keys := (Addr.sample_spec 1).2.1
  have consistent := (Addr.sample_loaded 1).consistent
  have full := Platform.sample_fullWidth (beNat (Addr.sample 1).base.tagE)
  obtain ⟨tagEq, tagEEq⟩ := consistent.same_tags (Addr.sampleEntry_loads 1)
  obtain ⟨encrypted, sealing, _⟩ := exists_broadcastObject Draws.sample Platform.sample_correct
    [104, 105] full
  have limit := broadcastSent_length_le 7 keys sealing
  generalize payload : (Node.withNonce (Node.queued
    (broadcastSent Draws.sample (Addr.sample 1) encrypted)) 7).messagePayload = text at limit
  rw [consistent.tag_length] at limit
  obtain ⟨wire, received, after, _, _, accepted, mess, stored, info, _⟩ :=
    @decryptBroadcast_sealed _ _ _ Platform.sample_correct keys full consistent.tag_length
      consistent.tagE_length _ consistent.built _ _ sealing _ tagEq tagEEq Node.sampleSubscriber
      [] [] rfl (by simp) 7 { Draws.sample.memory.toPacket with messagePayload := text }
      payload.symm (limit.trans (by decide)) Draws.sample ⟨0, 0, 0, 0⟩
  obtain ⟨trace, run, decoded⟩ := @decryptBroadcast_run _
    ⟨Node.sampleSubscriber, fun _ => .idle⟩ 0 rfl _ _ _ _ _ accepted
  have long : ∀ taken ∈ trace, LongSigned taken.1 taken.2 := by
    intro taken member j other inserts
    obtain ⟨signature, berDecoded⟩ := decoded taken member j other inserts
    by_cases length : other.signature.length = 64
    · omega
    · cases (dif_neg length).symm.trans berDecoded
  obtain ⟨once, _, same⟩ := messages_once rfl run long
  exact ⟨trace, _, run, ⟨mess, (same (fun _ => rfl) mess).mp stored, info⟩, once,
    same fun _ => rfl⟩

end Deliveries

end BitMRC

import BitMRC.Node.Publication
import BitMRC.Node.Sending
import BitMRC.Node.Sharing

/-!
# Objects that are passed on

An object goes from node to node: one answers a request with it, and the next one reads the packet
and checks it by its own clock.  Nodes of this kind take no connections, so other programs stand
between them, which send payloads as they got them.  The payload survives every transfer, and
its proof of work only gets easier while time passes, so until it is over every node on the
way stores it under the same tag.
-/

namespace BitMRC

open Foundation UString

variable {platform : Platform}

/-! ## Later checks -/

/-- A proof of work stays good. -/
theorem checkPow_later {time earlier later : Int64} {data : UString} (eight : 8 ≤ data.length)
    (short : data.length ≤ 0x40000) (order : earlier.toInt ≤ later.toInt)
    (near : time.toInt - earlier.toInt ≤ 2430000) (recent : -3600 < time.toInt - later.toInt)
    (passes : checkPow platform earlier data time.toUInt64 = .ok true) :
    checkPow platform later data time.toUInt64 = .ok true := by
  have length := payloadLength_toNat eight short
  unfold checkPow at passes ⊢
  obtain ⟨pow, hashed, passes⟩ := bind_eq_ok.mp passes
  obtain ⟨target, searched, passes⟩ := bind_eq_ok.mp passes
  obtain ⟨grown, found, le⟩ := getTarget_mono (by omega) order near recent searched
  have low : pow ≤ target := of_decide_eq_true (Except.ok.inj passes)
  refine bind_eq_ok.mpr ⟨pow, hashed, bind_eq_ok.mpr ⟨grown, found, ?_⟩⟩
  rw [decide_eq_true (UInt64.le_trans low le)]
  rfl

namespace Node

/-- What was valid is valid until its time is over; the first clock is not set before 1970. -/
theorem validateObj_later {obj : Object} {earlier later : Int64}
    (eight : 8 ≤ obj.messagePayload.length) (clock : 0 ≤ earlier.toInt)
    (order : earlier.toInt ≤ later.toInt) (recent : -3600 < obj.time.toInt - later.toInt)
    (valid : validateObj platform earlier obj = .ok true) :
    validateObj platform later obj = .ok true := by
  have limit : (28 * 24 * 60 * 60 + 10800 : Int64).toInt = 2430000 := by decide
  have hour : (-3600 : Int64).toInt = -3600 := by decide
  unfold validateObj at valid
  split at valid
  next => cases valid
  next size =>
    split at valid
    next => cases valid
    next far =>
      split at valid
      next => cases valid
      next =>
        -- neither of the two differences wraps around
        have top := Int64.toInt_lt obj.time
        have exact : (obj.time - earlier).toInt = obj.time.toInt - earlier.toInt := by
          rw [Int64.toInt_sub, Int.bmod_eq_of_le (by omega) (by omega)]
        rw [Int64.lt_iff_toInt_lt, limit, exact] at far
        have window := toInt_sub_window recent (by omega)
        have late : ¬((28 * 24 * 60 * 60 + 10800 : Int64) < obj.time - later) := by
          rw [Int64.lt_iff_toInt_lt, window, limit]
          omega
        have old : ¬(obj.time - later < (-3600 : Int64)) := by
          rw [Int64.lt_iff_toInt_lt, window, hour]
          omega
        rw [validateObj, if_neg size, if_neg late, if_neg old]
        exact checkPow_later eight (Nat.le_of_not_lt size) order (by omega) recent valid

end Node

/-! ## From node to node -/

/-- A packet that a node reads, and its clock when it checks it. -/
structure Arrival where
  packet : Packet
  now : Int64

namespace Arrival

/-- The packet holds an object with this payload and this time, which is valid when it arrives. -/
def Accepted (platform : Platform) (arrival : Arrival) (payload : UString) (time : Int64) : Prop :=
  ∃ obj, Object.ofPacket arrival.packet = .ok obj ∧ obj.messagePayload = payload ∧
    obj.time = time ∧ Node.validateObj platform arrival.now obj = .ok true

/-- The node that checked the first packet passes the object on to the one that checks the next. -/
inductive Hop (platform : Platform) (first next : Arrival) : Prop
  /-- It answers a request, and the answer is read from the connection, with whatever is behind
  it. -/
  | answered {obj : Object} {draws : Draws platform} {bytes rest : UString} {ending : Ending}
      {stop : Nat} (order : first.now.toInt ≤ next.now.toInt)
      (decoded : Object.ofPacket first.packet = .ok obj)
      (sends : (Node.objectPacket draws obj.messagePayload).sendData = .ok bytes)
      (reads : Packet.getCommand ending (bytes ++ rest) 0 = .ok (next.packet, stop))
  /-- It is another program, which sends the payload as it is. -/
  | forwarded (order : first.now.toInt ≤ next.now.toInt)
      (same : next.packet.messagePayload = first.packet.messagePayload)

theorem Hop.order {first next : Arrival} (hop : Hop platform first next) :
    first.now.toInt ≤ next.now.toInt := by
  cases hop with
  | answered order => exact order
  | forwarded order => exact order

variable {first next : Arrival} {payload : UString} {time : Int64}

/-- What is read is the object, with the same payload. -/
theorem Accepted.sent (accepted : first.Accepted platform payload time) (draws : Draws platform)
    (rest : UString) (ending : Ending) : ∃ bytes packet obj,
      (Node.objectPacket draws payload).sendData = .ok bytes ∧
      Packet.getCommand ending (bytes ++ rest) 0 = .ok (packet, bytes.length) ∧
      cStr packet.command.toUString = objectName ∧ Object.ofPacket packet = .ok obj ∧
      obj.messagePayload = payload ∧ obj.time = time := by
  obtain ⟨obj, decoded, rfl, rfl, valid⟩ := accepted
  have short : obj.messagePayload.length < intLimit :=
    Nat.lt_of_le_of_lt (validateObj_short valid) (by decide)
  have sendable := @Node.objectPacket_sendable platform draws obj.messagePayload short
  have content := sendable.frame_content.trans (Node.objectPacket_content obj.messagePayload)
  have fields := Object.decodeData_payload decoded rfl
  have payload : obj.messagePayload = first.packet.copy.messagePayload := by rw [fields.2]
  have again := (@Object.decodeData_payload _ sendable.frame.packet.copy _ decoded
    (by rw [← payload]; exact congrArg Prod.snd content)).1
  exact ⟨_, _, _, sendable.sendData, sendable.frame.getCommand_bytes ending rest,
    congrArg Prod.fst content, again, congrArg Prod.snd content, rfl⟩

/-- Every decoded packet that holds the payload is accepted while the object is not over. -/
theorem Accepted.later (accepted : first.Accepted platform payload time)
    (order : first.now.toInt ≤ next.now.toInt) (clock : 0 ≤ first.now.toInt)
    (recent : -3600 < time.toInt - next.now.toInt) {read : Object}
    (decoded : Object.ofPacket next.packet = .ok read) (samePayload : read.messagePayload = payload)
    (sameTime : read.time = time) : next.Accepted platform payload time := by
  obtain ⟨obj, decodes, rfl, rfl, valid⟩ := accepted
  have eight := (Storable.of_packet decodes valid).eight
  have later := Node.validateObj_later eight clock order recent valid
  refine ⟨read, decoded, samePayload, sameTime, ?_⟩
  rw [← later, Node.validateObj, Node.validateObj, samePayload, sameTime]

/-- An accepted object is accepted by the next node too, if it is not over by then. -/
theorem Accepted.hop (accepted : first.Accepted platform payload time)
    (hop : Hop platform first next) (clock : 0 ≤ first.now.toInt)
    (recent : -3600 < time.toInt - next.now.toInt) : next.Accepted platform payload time := by
  cases hop with
  | @answered obj draws bytes rest ending stop order decoded sends reads =>
      obtain ⟨bytes', packet, read, sends', reads', _, decoded', samePayload, sameTime⟩ :=
        accepted.sent draws rest ending
      obtain ⟨obj', same, rfl, _⟩ := id accepted
      cases decoded.symm.trans same
      cases sends.symm.trans sends'
      cases reads.symm.trans reads'
      exact accepted.later order clock recent decoded' samePayload sameTime
  | forwarded order same =>
      obtain ⟨obj, decoded, payload, time, _⟩ := id accepted
      have again := (@Object.decodeData_payload _ next.packet.copy _ decoded same).1
      have kept := (Object.decodeData_payload decoded rfl).2
      exact accepted.later order clock recent again (by rw [← payload, kept]; exact same) time

/-- Whoever reads the answer in time accepts the object too. -/
theorem Accepted.answers (accepted : first.Accepted platform payload time)
    (clock : 0 ≤ first.now.toInt) (draws : Draws platform) (rest : UString) (ending : Ending) :
    ∃ bytes packet, (Node.objectPacket draws payload).sendData = .ok bytes ∧
      Packet.getCommand ending (bytes ++ rest) 0 = .ok (packet, bytes.length) ∧
      ∀ later : Int64, first.now.toInt ≤ later.toInt → -3600 < time.toInt - later.toInt →
        Hop platform first ⟨packet, later⟩ ∧
          Accepted platform ⟨packet, later⟩ payload time := by
  obtain ⟨bytes, packet, _, sends, reads, _⟩ := accepted.sent draws rest ending
  refine ⟨bytes, packet, sends, reads, fun later order recent => ?_⟩
  have hop : Hop platform first ⟨packet, later⟩ := by
    obtain ⟨obj, decoded, rfl, _⟩ := accepted
    exact .answered order decoded sends reads
  exact ⟨hop, accepted.hop hop clock recent⟩

/-- On a way from node to node, all accept the object until it is over. -/
theorem Accepted.hops {last : Arrival} (accepted : first.Accepted platform payload time)
    (clock : 0 ≤ first.now.toInt) (hops : Relation.ReflTransGen (Hop platform) first last)
    (recent : -3600 < time.toInt - last.now.toInt) :
    last.Accepted platform payload time ∧ first.now.toInt ≤ last.now.toInt := by
  induction hops with
  | refl => exact ⟨accepted, Int.le_refl _⟩
  | @tail middle last _ hop ih =>
      have order := hop.order
      obtain ⟨there, earlier⟩ := ih (by omega)
      exact ⟨there.hop hop (by omega) recent, by omega⟩

/-- An object that some node has given to `sendObj` was mined there, and has come in this packet
from node to node. -/
inductive Travels (platform : Platform) (obj : Object) (last : Arrival) : Prop
  | mined {nonce : UInt64} {now : Int64} (clock : 0 ≤ now.toInt)
      (valid : Node.validateObj platform now (Node.withNonce (Node.queued obj) nonce) = .ok true)
      (hops : Relation.ReflTransGen (Hop platform)
        ⟨(Node.withNonce (Node.queued obj) nonce).toPacket, now⟩ last)
      (recent : -3600 < obj.time.toInt - last.now.toInt)

/-- What arrives is what was given, with its nonce, and it is still valid. -/
theorem Travels.arrives {obj : Object} {last : Arrival} (travels : Travels platform obj last) :
    ∃ nonce, last.packet.messagePayload =
        (Node.withNonce (Node.queued obj) nonce).messagePayload ∧
      last.packet.messagePayload.length ≤ 0x40000 ∧
      Object.ofPacket last.packet = .ok (Node.received last.packet obj nonce) ∧
      Node.validateObj platform last.now (Node.received last.packet obj nonce) = .ok true := by
  obtain @⟨nonce, now, clock, valid, hops, recent⟩ := travels
  have limit := validateObj_short valid
  have fresh := (@Node.decode_withNonce_queued obj nonce
    (Node.withNonce (Node.queued obj) nonce).toPacket rfl (lt_intLimit limit)).1
  have accepted : Accepted platform ⟨(Node.withNonce (Node.queued obj) nonce).toPacket, now⟩
      (Node.withNonce (Node.queued obj) nonce).messagePayload obj.time :=
    ⟨_, fresh, rfl, rfl, by rw [← valid]; rfl⟩
  obtain ⟨⟨read, decoded, payload, time, later⟩, _⟩ := accepted.hops clock hops recent
  have same : last.packet.messagePayload = read.messagePayload := by
    rw [(Object.decodeData_payload decoded rfl).2]
    rfl
  have arrived := (Node.decode_withNonce_queued (same.trans payload)
    (by rw [same, payload]; exact lt_intLimit limit)).1
  cases decoded.symm.trans arrived
  exact ⟨nonce, same.trans payload, by rw [same, payload]; exact limit, arrived, later⟩

/-- However many nodes have passed an object on, each in its own state: as long as it is not
over, the next node takes it in with the payload that the first one has accepted, and who reads its
answers accepts them. -/
theorem object_relayed {last : Arrival} (accepted : first.Accepted platform payload time)
    (clock : 0 ≤ first.now.toInt) (hops : Relation.ReflTransGen (Hop platform) first last)
    (recent : -3600 < time.toInt - last.now.toInt) (draws : Draws platform)
    (now : draws.now = last.now) :
    (∀ (sys : System) (k : Nat), System.Reachable platform sys → sys.listeners k = .idle →
      ∃ obj after, Object.ofPacket last.packet = .ok obj ∧
        System.Step platform sys (.insert k obj) after ∧ System.Reachable platform after ∧
        after.node.sharedObj.Stored payload ∧
        after.node.hasTag platform (Node.inventoryHash platform payload) = true) ∧
    ∀ (draws : Draws platform) (rest : UString) (ending : Ending),
      ∃ bytes packet, (Node.objectPacket draws payload).sendData = .ok bytes ∧
        Packet.getCommand ending (bytes ++ rest) 0 = .ok (packet, bytes.length) ∧
        ∀ later : Int64, last.now.toInt ≤ later.toInt → -3600 < time.toInt - later.toInt →
          Hop platform last ⟨packet, later⟩ ∧
            Accepted platform ⟨packet, later⟩ payload time := by
  obtain ⟨there, order⟩ := accepted.hops clock hops recent
  refine ⟨?_, there.answers (by omega)⟩
  intro sys k reachable free
  obtain ⟨obj, decoded, rfl, _, valid⟩ := there
  have step := @System.Step.insert platform sys k draws _ obj free decoded (by rwa [now])
  have stored := sys.node.share_stored platform draws.buffer obj.messagePayload
  exact ⟨obj, _, decoded, step, reachable.step step, stored,
    Node.hasTag_iff.mpr ⟨_, stored, rfl⟩⟩

/-- The request of time 0 at the second node. -/
theorem object_relayed_sample : ∃ last obj after,
    Relation.ReflTransGen (Hop Platform.sample) ⟨Packet.sample, 0⟩ last ∧
    Object.ofPacket last.packet = .ok obj ∧
    System.Step Platform.sample (.idle Node.new) (.insert 0 obj) after ∧
    after.node.sharedObj.Stored Object.sample.messagePayload := by
  have accepted : Accepted Platform.sample ⟨Packet.sample, 0⟩ Object.sample.messagePayload 0 :=
    ⟨Object.sample, Object.ofPacket_sample, rfl, rfl, Object.valid_sample⟩
  obtain ⟨bytes, packet, _, _, passes⟩ := accepted.answers (by decide) Draws.sample [] .closed
  have hops := Relation.ReflTransGen.single (passes 0 (Int.le_refl _) (by decide)).1
  obtain ⟨obj, after, decoded, step, _, stored, _⟩ :=
    (object_relayed accepted (by decide) hops (show -3600 < (0 : Int) - 0 by decide) Draws.sample
      rfl).1 (.idle Node.new) 0 .start rfl
  exact ⟨_, obj, after, hops, decoded, step, stored⟩

end Arrival

end BitMRC

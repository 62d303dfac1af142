import BitMRC.Address.Generate
import BitMRC.Address.Listed
import BitMRC.Node.ProcessObj

/-!
# What operations do to a node

Every operation changes the object table, the address book and the own addresses
only in the few ways listed in `Change`; each of them is shown to be a sequence of
such changes.  Invariants are then proved for the changes alone.
-/

namespace BitMRC

open Foundation UString

variable {platform : Platform}

/-! ## Objects that may be stored -/

/-- A payload that passed the size check and decodes. -/
structure Storable (payload : UString) : Prop where
  short : payload.length ≤ 0x40000
  decodes : ∀ packet : Packet, packet.messagePayload = payload →
    ∃ obj, Object.decodeData packet = .ok obj

/-- Decoding depends on the payload alone; the other members stay as they were. -/
theorem Object.decodeData_payload {packet other : Packet} {obj : Object}
    (decoded : decodeData packet = .ok obj)
    (same : other.messagePayload = packet.messagePayload) :
    decodeData other = .ok {
        other with
        nonce := obj.nonce
        time := obj.time
        objectType := obj.objectType
        objectPayload := obj.objectPayload
        version := obj.version
        stream := obj.stream } ∧
      obj.toPacket = packet := by
  rw [decodeData] at decoded ⊢
  rw [same]
  obtain ⟨stop, read⟩ := Cursor.value_eq_ok.mp decoded
  unfold readData at read ⊢
  obtain ⟨nonce, _, readNonce, read⟩ := Cursor.bind_eq_ok.mp read
  obtain ⟨time, _, readTime, read⟩ := Cursor.bind_eq_ok.mp read
  obtain ⟨objectType, _, readType, read⟩ := Cursor.bind_eq_ok.mp read
  obtain ⟨version, _, readVersion, read⟩ := Cursor.bind_eq_ok.mp read
  obtain ⟨stream, _, readStream, read⟩ := Cursor.bind_eq_ok.mp read
  obtain ⟨objectPayload, _, readPayload, read⟩ := Cursor.bind_eq_ok.mp read
  cases read
  refine ⟨?_, rfl⟩
  apply Cursor.value_of_ok
  rw [Cursor.bind_of_ok readNonce, Cursor.bind_of_ok readTime, Cursor.bind_of_ok readType,
    Cursor.bind_of_ok readVersion, Cursor.bind_of_ok readStream, Cursor.bind_of_ok readPayload,
    Cursor.pure_apply]

theorem validateObj_short {now : Int64} {obj : Object}
    (valid : Node.validateObj platform now obj = .ok true) :
    obj.messagePayload.length ≤ 0x40000 := by
  unfold Node.validateObj at valid
  split at valid
  next => cases valid
  next short => exact Nat.le_of_not_lt short

/-- The payload of an object that came out of a packet and passed the size check. -/
theorem Storable.of_packet {packet : Packet} {obj : Object} {now : Int64}
    (decoded : Object.ofPacket packet = .ok obj)
    (valid : Node.validateObj platform now obj = .ok true) : Storable obj.messagePayload := by
  have fields := Object.decodeData_payload decoded rfl
  have payload : obj.messagePayload = packet.copy.messagePayload := by rw [fields.2]
  refine ⟨validateObj_short valid, ?_⟩
  intro other same
  exact ⟨_, (Object.decodeData_payload decoded (same.trans payload)).1⟩

/-! ## Changes -/

namespace Node

/-- The same objects and addresses. -/
structure Agrees (before after : Node) : Prop where
  sharedObj : after.sharedObj = before.sharedObj
  pubAddresses : after.pubAddresses = before.pubAddresses
  privAddresses : after.privAddresses = before.privAddresses

/-- The ways in which operations change the object table and the address lists. -/
inductive Change (platform : Platform) : Node → Node → Prop
  /-- An object is shared, unless it is there already. -/
  | share (self : Node) (buffer payload : UString) (storable : Storable payload) :
      Change platform self (self.share platform buffer payload).2
  /-- An address goes into the address book. -/
  | learn (self : Node) (address : PubAddr) (listed : address.Listed platform) :
      Change platform self (self.addAddr address)
  /-- Entries of the address book take keys or note a request. -/
  | update (self : Node) (pubAddresses : List PubAddr)
      (updated : List.Forall₂ (PubAddr.Updated platform) self.pubAddresses pubAddresses) :
      Change platform self { self with pubAddresses }
  /-- An own address is generated. -/
  | adopt (self : Node) (own : Addr) (generated : own.Generated platform) :
      Change platform self (self.addPrivAddr own)
  /-- Own addresses note when they were published. -/
  | publish (self : Node) (privAddresses : List Addr)
      (noted : List.Forall₂ (fun own own' => ∃ request, own' = own.setLastPubKeyRequest request)
        self.privAddresses privAddresses) :
      Change platform self { self with privAddresses }
  /-- Anything else; what was announced stays announced. -/
  | other (self after : Node) (agrees : Agrees self after)
      (newInv : self.newInv <+: after.newInv) : Change platform self after

/-- Sequences of changes. -/
abbrev Changes (platform : Platform) : Node → Node → Prop :=
  Relation.ReflTransGen (Change platform)

/-- An operation that leaves the table and both lists alone. -/
theorem Changes.other {self after : Node} (agrees : Agrees self after)
    (newInv : self.newInv <+: after.newInv) : Changes platform self after :=
  .single (.other self after agrees newInv)

variable {draws : Draws platform} {uninit : Uninit} {self after : Node}

theorem propagate_changes {obj : Object}
    (decodes : ∀ packet : Packet, packet.messagePayload = obj.messagePayload →
      obj.messagePayload.length ≤ 0x40000 → ∃ decoded, Object.decodeData packet = .ok decoded)
    (result : self.propagate draws obj = .ok after) : Changes platform self after := by
  unfold propagate at result
  cases valid : validateObj platform draws.now obj with
  | error failure => simp [valid, bind, Except.bind] at result
  | ok flag =>
      cases flag with
      | false =>
          simp only [valid, bind, Except.bind, pure, Except.pure] at result
          cases result
          exact .refl
      | true =>
          have short := validateObj_short valid
          simp only [valid, bind, Except.bind, pure, Except.pure] at result
          cases result
          have shared : Change platform self
              (self.share platform draws.buffer obj.messagePayload).2 :=
            .share self draws.buffer _ ⟨short, fun packet same => decodes packet same short⟩
          exact .trans (.single shared) (Changes.other ⟨rfl, rfl, rfl⟩ (List.prefix_append _ _))

theorem storeMessage_changes {sender : Sender} {recipient message sign : UString}
    (result : self.storeMessage draws uninit sender recipient message sign = .ok after) :
    Changes platform self after := by
  unfold storeMessage at result
  cases built : buildAddressFromKeys platform sender.pubSigningKey sender.pubEncryptionKey
      sender.stream sender.version with
  | error failure => simp [built, bind, Except.bind] at result
  | ok addr =>
      have decoded := decodeAddress_buildAddress built
      have loads := PubAddr.loadAddr_of_decoded decoded (PubAddr.new uninit)
      simp only [built, loads, bind, Except.bind] at result
      have address := PubAddr.loadBody_address platform (PubAddr.new uninit) addr
        (addressBody sender.version sender.stream ((keyDigest platform sender.pubSigningKey
          sender.pubEncryptionKey).toUString.dropWhile (· = 0)))
      generalize (PubAddr.loadBody platform (PubAddr.new uninit) addr (addressBody sender.version
        sender.stream ((keyDigest platform sender.pubSigningKey
          sender.pubEncryptionKey).toUString.dropWhile (· = 0)))).2 = entry at address result
      have short : entry.address.length < intLimit := by
        rw [address]
        exact Nat.lt_of_le_of_lt (buildAddress_length built) (by decide)
      have listed := @PubAddr.Listed.loadKeys platform entry short
        ⟨_, by rw [address]; exact decoded⟩ sender.pubSigningKey sender.pubEncryptionKey
        sender.nonce sender.extra
      have learned : Changes platform self _ := .single (.learn self _ listed)
      split at result
      next =>
        cases result
        exact learned.trans (Changes.other ⟨rfl, rfl, rfl⟩ List.prefix_rfl)
      next =>
        cases result
        exact learned.trans (Changes.other ⟨rfl, rfl, rfl⟩ List.prefix_rfl)

theorem propagateAck_changes {ackData : UString}
    (result : self.propagateAck draws ackData = .ok after) : Changes platform self after := by
  unfold propagateAck at result
  obtain ⟨ack, _, result⟩ := bind_eq_ok.mp result
  obtain ⟨obj, decoded, result⟩ := bind_eq_ok.mp result
  have fields := Object.decodeData_payload decoded rfl
  refine propagate_changes ?_ result
  intro packet same _
  rw [fields.2] at same
  exact ⟨_, (Object.decodeData_payload decoded same).1⟩

theorem acceptMsg_changes {msg : PacketMsg} {own : Addr} {recovered : UString} {accepted : Bool}
    (result : self.acceptMsg draws uninit msg own recovered = .ok (accepted, after)) :
    Changes platform self after := by
  unfold acceptMsg at result
  obtain ⟨plain, _, result⟩ := bind_eq_ok.mp result
  split at result
  next =>
    cases result
    exact .refl
  obtain ⟨verified, _, result⟩ := bind_eq_ok.mp result
  split at result
  next =>
    obtain ⟨acked, ack, result⟩ := bind_eq_ok.mp result
    have first := propagateAck_changes ack
    rcases tryCatchAll_eq_ok result with stored | refused
    · obtain ⟨final, store, stored⟩ := bind_eq_ok.mp stored
      cases stored
      exact first.trans (storeMessage_changes store)
    · cases refused
      exact first
  next =>
    cases result
    exact .refl

theorem decryptMsg_changes {msg : PacketMsg} {accepted : Bool}
    (result : self.decryptMsg draws uninit msg = .ok (accepted, after)) :
    Changes platform self after := by
  unfold decryptMsg at result
  split at result
  next =>
    cases result
    exact .refl
  next own recovered _ =>
    rcases tryCatchAll_eq_ok result with accept | refused
    · exact acceptMsg_changes accept
    · cases refused
      exact .refl

theorem acceptBroadcast_changes {msg : PacketBroadcast} {recovered : UString} {accepted : Bool}
    (result : self.acceptBroadcast draws uninit msg recovered = .ok (accepted, after)) :
    Changes platform self after := by
  unfold acceptBroadcast at result
  obtain ⟨plain, _, result⟩ := bind_eq_ok.mp result
  obtain ⟨verified, _, result⟩ := bind_eq_ok.mp result
  split at result
  next =>
    obtain ⟨final, store, result⟩ := bind_eq_ok.mp result
    cases result
    exact storeMessage_changes store
  next =>
    cases result
    exact .refl

/-- The text of a broadcast was decrypted with the tag key of a subscription; in
version 5 the subscription also has the tag of the object. -/
theorem decryptBroadcastWith_decode {msg : PacketBroadcast} {recovered : UString}
    {subscriptions : List PubAddr} {subscription : PubAddr}
    (found : decryptBroadcastWith platform msg subscriptions = some (subscription, recovered)) :
    subscription ∈ subscriptions ∧
      decode platform msg.encrypted subscription.tagE = .ok recovered ∧
      (msg.version = 4 ∨ msg.version = 5 ∧ msg.tag = subscription.tag) := by
  induction subscriptions with
  | nil => cases found
  | cons head rest ih =>
      have later (result : decryptBroadcastWith platform msg rest =
          some (subscription, recovered)) := ih result
      rw [decryptBroadcastWith] at found
      split at found
      next four =>
        split at found
        next opened =>
          cases found
          exact ⟨List.mem_cons_self, opened, .inl four⟩
        next =>
          obtain ⟨member, rest⟩ := later found
          exact ⟨List.mem_cons_of_mem _ member, rest⟩
      split at found
      next five =>
        split at found
        next tag =>
          split at found
          next opened =>
            cases found
            exact ⟨List.mem_cons_self, opened, .inr ⟨five, tag⟩⟩
          next => cases found
        next =>
          obtain ⟨member, rest⟩ := later found
          exact ⟨List.mem_cons_of_mem _ member, rest⟩
      next =>
        obtain ⟨member, rest⟩ := later found
        exact ⟨List.mem_cons_of_mem _ member, rest⟩

theorem decryptBroadcast_changes {msg : PacketBroadcast} {accepted : Bool}
    (result : self.decryptBroadcast draws uninit msg = .ok (accepted, after)) :
    Changes platform self after := by
  unfold decryptBroadcast at result
  split at result
  next =>
    cases result
    exact .refl
  next subscription recovered _ =>
    rcases tryCatchAll_eq_ok result with accept | refused
    · exact acceptBroadcast_changes accept
    · cases refused
      exact .refl

/-- Publishing only notes the time. -/
theorem encodePubKey_fst {own own' : Addr} {pubkey : PacketPubkey}
    (encoded : own.encodePubKey draws = .ok (own', pubkey)) :
    own' = own.setLastPubKeyRequest draws.now := by
  unfold Addr.encodePubKey at encoded
  obtain ⟨_, _, encoded⟩ := bind_eq_ok.mp encoded
  obtain ⟨_, _, encoded⟩ := bind_eq_ok.mp encoded
  cases encoded
  rfl

theorem publishKeys_noted {tag : UString} {own own' : List Addr} {sent : List Object}
    (result : publishKeys draws tag own = .ok (own', sent)) :
    List.Forall₂ (fun address address' : Addr =>
      ∃ request, address' = address.setLastPubKeyRequest request) own own' := by
  induction own generalizing own' sent with
  | nil =>
      cases result
      exact .nil
  | cons address rest ih =>
      rw [publishKeys] at result
      split at result
      next =>
        obtain ⟨⟨noted, _⟩, encoded, result⟩ := bind_eq_ok.mp result
        obtain ⟨⟨rest', _⟩, published, result⟩ := bind_eq_ok.mp result
        cases result
        exact .cons ⟨_, encodePubKey_fst encoded⟩ (ih published)
      next =>
        obtain ⟨⟨rest', _⟩, published, result⟩ := bind_eq_ok.mp result
        cases result
        exact .cons ⟨address.base.lastPubKeyRequest, rfl⟩ (ih published)

/-- An entry that was stored has what `decodeFromObj` gave it. -/
theorem takeKey_eq_ok {pubkey : PacketPubkey} {entry entry' : PubAddr}
    (taken : takeKey draws pubkey entry = .ok entry') :
    ∃ valid, entry.decodeFromObj platform pubkey = .ok (valid, entry') := by
  obtain ⟨⟨valid, found⟩, decoded, taken⟩ := bind_eq_ok.mp taken
  cases valid with
  | false =>
      cases taken
      exact ⟨false, decoded⟩
  | true =>
      obtain ⟨_, _, taken⟩ := bind_eq_ok.mp taken
      cases taken
      exact ⟨true, decoded⟩

theorem takeKeys_updated {pubkey : PacketPubkey} {entries entries' : List PubAddr}
    (result : takeKeys draws pubkey entries = .ok entries') :
    List.Forall₂ (PubAddr.Updated platform) entries entries' := by
  induction entries generalizing entries' with
  | nil =>
      cases result
      exact .nil
  | cons entry rest ih =>
      rw [takeKeys] at result
      split at result
      next asked =>
        obtain ⟨entry', stored, result⟩ := bind_eq_ok.mp result
        obtain ⟨rest', others, result⟩ := bind_eq_ok.mp result
        cases result
        obtain ⟨valid, taken⟩ := takeKey_eq_ok stored
        refine .cons ⟨?_, ?_⟩ (ih others)
        · exact .of_waiting (PubAddr.decodeFromObj_address taken) asked.1
        · intro listed
          exact listed.decodeFromObj taken
      next =>
        obtain ⟨rest', others, result⟩ := bind_eq_ok.mp result
        cases result
        exact .cons (.refl entry) (ih others)

/-! ## The operations -/

theorem handleObj_changes {obj : Object}
    (result : self.handleObj draws uninit obj = .ok after) : Changes platform self after := by
  unfold handleObj at result
  split at result
  next =>
    obtain ⟨⟨own, sent⟩, published, result⟩ := bind_eq_ok.mp result
    cases result
    have noted : Changes platform self { self with privAddresses := own } :=
      .single (.publish self own (publishKeys_noted published))
    exact noted.trans (Changes.other ⟨rfl, rfl, rfl⟩ List.prefix_rfl)
  split at result
  next =>
    obtain ⟨pubkey, _, result⟩ := bind_eq_ok.mp result
    obtain ⟨entries, taken, result⟩ := bind_eq_ok.mp result
    cases result
    exact .single (.update self entries (takeKeys_updated taken))
  split at result
  next =>
    obtain ⟨⟨accepted, final⟩, decrypted, result⟩ := bind_eq_ok.mp result
    cases result
    exact decryptMsg_changes decrypted
  split at result
  next =>
    obtain ⟨broadcast, _, result⟩ := bind_eq_ok.mp result
    obtain ⟨⟨accepted, final⟩, decrypted, result⟩ := bind_eq_ok.mp result
    cases result
    exact decryptBroadcast_changes decrypted
  next =>
    cases result
    exact .refl

/-- Asking again notes the time in one entry. -/
theorem requestAgain_updated {now : Int64} {address : PubAddr} {found : Bool}
    {entries entries' : List PubAddr}
    (result : requestAgain now address entries = some (found, entries')) :
    List.Forall₂ (PubAddr.Updated platform) entries entries' := by
  induction entries generalizing entries' with
  | nil =>
      cases result
      exact .nil
  | cons entry rest ih =>
      rw [requestAgain] at result
      by_cases same : entry.version = address.version ∧
          (if 4 ≤ address.version then entry.tag = address.tag else entry.ripe = address.ripe)
      · rw [if_pos same] at result
        split at result
        next =>
          cases result
          refine .cons ⟨.setLastPubKeyRequest entry now, ?_⟩
            (List.forall₂_same.mpr fun entry _ => .refl entry)
          intro listed
          exact ⟨listed.short, listed.decodes, listed.keys⟩
        next => cases result
      · rw [if_neg same] at result
        cases walk : requestAgain now address rest with
        | none => simp [walk] at result
        | some pair =>
            rcases pair with ⟨flag, rest'⟩
            simp only [walk, Option.map_some, Option.some.injEq, Prod.mk.injEq] at result
            obtain ⟨rfl, rfl⟩ := result
            exact .cons (.refl entry) (ih walk)

/-- The address found among the shared objects is the requested one with other keys. -/
theorem searchShared_listed {address found : PubAddr} {nodes : List (LinkedNode UString)}
    (listed : address.Listed platform)
    (result : searchShared draws address nodes = .ok (some found)) :
    found.Listed platform := by
  induction nodes with
  | nil => cases result
  | cons cur rest ih =>
      rw [searchShared] at result
      obtain ⟨obj, _, result⟩ := bind_eq_ok.mp result
      split at result
      next =>
        obtain ⟨pubkey, _, result⟩ := bind_eq_ok.mp result
        split at result
        next =>
          obtain ⟨⟨loaded, entry⟩, taken, result⟩ := bind_eq_ok.mp result
          cases result
          exact listed.decodeFromObj taken
        next => exact ih result
      next => exact ih result

/-- The four ways a call of `getPubKey` ends. -/
theorem getPubKey_cases {address : PubAddr} (result : self.getPubKey draws address = .ok after) :
    (requestAgain draws.now address self.pubAddresses = none ∧ after = self) ∨
    (∃ entries, requestAgain draws.now address self.pubAddresses = some (true, entries) ∧
      after = { self with pubAddresses := entries }.sendObj
        (getpubkeyObject draws address).toObject) ∨
    ∃ entries search, requestAgain draws.now address self.pubAddresses = some (false, entries) ∧
      searchShared draws address self.sharedObj.toList = .ok search ∧
      ((∃ found, search = some found ∧ after = self.addAddr found) ∨
        (search = none ∧ after = (self.addAddr { address with lastPubKeyRequest := draws.now
          }).sendObj (getpubkeyObject draws address).toObject)) := by
  unfold getPubKey at result
  split at result
  next known =>
    cases result
    exact .inl ⟨known, rfl⟩
  next entries again =>
    cases result
    exact .inr (.inl ⟨entries, again, rfl⟩)
  next entries walked =>
    obtain ⟨search, searched, result⟩ := bind_eq_ok.mp result
    refine .inr (.inr ⟨entries, search, walked, searched, ?_⟩)
    cases search with
    | some found =>
        cases result
        exact .inl ⟨found, rfl, rfl⟩
    | none =>
        cases result
        exact .inr ⟨rfl, rfl⟩

theorem getPubKey_changes {address : PubAddr} (listed : address.Listed platform)
    (result : self.getPubKey draws address = .ok after) : Changes platform self after := by
  rcases getPubKey_cases result with ⟨_, rfl⟩ | ⟨entries, again, rfl⟩ |
    ⟨_, search, _, searched, ⟨found, rfl, rfl⟩ | ⟨rfl, rfl⟩⟩
  · exact .refl
  · have noted : Changes platform self { self with pubAddresses := entries } :=
      .single (.update self entries (requestAgain_updated again))
    exact noted.trans (Changes.other ⟨rfl, rfl, rfl⟩ List.prefix_rfl)
  · exact .single (.learn self found (searchShared_listed listed searched))
  · have learned : Changes platform self
        (self.addAddr { address with lastPubKeyRequest := draws.now }) :=
      .single (.learn self _ ⟨listed.short, listed.decodes, listed.keys⟩)
    exact learned.trans (Changes.other ⟨rfl, rfl, rfl⟩ List.prefix_rfl)

end Node

end BitMRC

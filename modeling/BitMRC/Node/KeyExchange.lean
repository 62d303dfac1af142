import BitMRC.Node.Handled
import BitMRC.Node.Relay

/-!
# Through the network

A node that wants the keys of an address gives a request to `sendObj`.  It goes from node to node
until the owner of the address gives the keys to `sendObj`, and these come back in the
same way.  Broadcasts take only the way there.
-/

namespace BitMRC

open Foundation UString

variable {platform : Platform}

/-! ## Objects that arrive -/

namespace Arrival

/-- A listener that reads the packet, when the chain of its tag is empty, gets to handling this
object. -/
structure Enters (platform : Platform) (last : Arrival) (obj : Object) : Prop where
  decoded : Object.ofPacket last.packet = .ok obj
  announces (sys : System) (k : Nat) (draws : Draws platform) (free : sys.listeners k = .idle)
    (now : draws.now = last.now)
    (new : sys.node.chainOf platform last.packet.messagePayload = []) : ∃ inserted after,
      System.Step platform sys (.insert k obj) inserted ∧
        System.Step platform inserted (.announce k obj) after ∧
        after.listeners k = .announced obj

/-- Everything that travels enters where it is new. -/
theorem Travels.enters {obj : Object} {last : Arrival} (travels : Travels platform obj last) :
    ∃ nonce, last.packet.messagePayload =
        (Node.withNonce (Node.queued obj) nonce).messagePayload ∧
      last.packet.messagePayload.length ≤ 0x40000 ∧
      last.Enters platform (Node.received last.packet obj nonce) := by
  obtain ⟨nonce, payload, limit, decoded, valid⟩ := travels.arrives
  refine ⟨nonce, payload, limit, decoded, ?_⟩
  intro sys k draws free now new
  have inserted := @System.Step.insert platform sys k draws last.packet _ free decoded
    (by rwa [now])
  have empty := (Node.chainOf_eq draws.buffer last.packet.messagePayload).trans new
  have code : (sys.node.share platform draws.buffer last.packet.messagePayload).1 = 1 := by
    rw [Node.share, HashTable.insert_of_empty _ _ _ _ empty]
  have announced := @System.Step.announce platform _ k
    (sys.node.share platform draws.buffer last.packet.messagePayload).1
    (Node.received last.packet obj nonce)
    (sys.proceed_listeners k _ (sys.node.share platform draws.buffer
      last.packet.messagePayload).2) (by rw [code]; decide)
  exact ⟨_, _, inserted, announced, System.proceed_listeners _ k _ _⟩

end Arrival

/-- The sample digest of a nonce starts with it, so 0 is good for every object. -/
theorem Arrival.sample_travels {obj : Object} {now : Int64} (clock : 0 ≤ now.toInt)
    (recent : -3600 < obj.time.toInt - now.toInt) (near : obj.time.toInt - now.toInt ≤ 2430000)
    (short : obj.objectPayload.length ≤ 0x3ff00) :
    Arrival.Travels Platform.sample obj
      ⟨(Node.withNonce (Node.queued obj) 0).toPacket, now⟩ := by
  have header := Object.header_length_le obj
  have payload := Node.withNonce_queued_payload obj 0
  have length : (Node.withNonce (Node.queued obj) 0).messagePayload.length =
      8 + (obj.header.length + obj.objectPayload.length) := by
    rw [payload, List.length_append, List.length_append, appendInt64_length]
  have window := toInt_sub_window recent near
  have limit : (28 * 24 * 60 * 60 + 10800 : Int64).toInt = 2430000 := by decide
  have hour : (-3600 : Int64).toInt = -3600 := by decide
  have zero (digest : UString) : powValue Platform.sample (nonceBytes 0 ++ digest) = 0 := by
    have bytes : (Platform.sample.doubleSHA512 (nonceBytes 0 ++ digest)).toUString.take 8 =
        List.replicate 8 0 := by
      simp [Platform.doubleSHA512, Platform.sample, Platform.fit, Block.toUString, nonceBytes]
    rw [powValue, bytes]
    decide +kernel
  have valid : Node.validateObj Platform.sample now (Node.withNonce (Node.queued obj) 0) =
      .ok true := by
    have time : (Node.withNonce (Node.queued obj) 0).time = obj.time := rfl
    rw [Node.validateObj, time, if_neg (by omega),
      if_neg (by rw [Int64.lt_iff_toInt_lt, window, limit]; omega),
      if_neg (by rw [Int64.lt_iff_toInt_lt, window, hour]; omega)]
    obtain ⟨passes, checked⟩ := @exists_checkPow Platform.sample obj.time now
      (Node.withNonce (Node.queued obj) 0).messagePayload (by omega) (by omega) (by omega)
      (by omega)
    rw [checked]
    rw [payload, checkPow, doPow_nonce, zero] at checked
    obtain ⟨_, hashed, checked⟩ := bind_eq_ok.mp checked
    cases hashed
    obtain ⟨target, _, same⟩ := bind_eq_ok.mp checked
    cases same
    rw [decide_eq_true UInt64.zero_le]
  exact .mined clock valid .refl recent

/-- What the handler does with any draws, the step of the listener does. -/
theorem System.handles {sys : System} {k : Nat} {obj : Object} {property : Node → Prop}
    (draws : Draws platform) (announced : sys.listeners k = .announced obj)
    (handled : ∀ (draws : Draws platform) (uninit : Uninit),
      ∃ after, sys.node.handleObj draws uninit obj = .ok after ∧ property after) :
    (∃ after, System.Step platform sys (.handle k obj) after) ∧
      ∀ after, System.Step platform sys (.handle k obj) after → property after.node := by
  constructor
  · obtain ⟨after, result, _⟩ := handled draws ⟨0, 0, 0, 0⟩
    exact ⟨_, .handle announced result⟩
  · intro after step
    cases step with
    | @handle _ stepDraws uninit _ _ _ result =>
        obtain ⟨same, result', holds⟩ := handled stepDraws uninit
        cases result.symm.trans result'
        exact holds

/-! ## Keys -/

section Keys

variable {own : Addr} {draws : Draws platform}

namespace Node

/-- Other addresses are not published. -/
theorem publishKeys_others {tag : UString} {others : List Addr} (rest : List Addr)
    (different : ∀ other ∈ others, tag ≠ other.base.tag) :
    publishKeys draws tag (others ++ rest) =
      (publishKeys draws tag rest).map fun result => (others ++ result.1, result.2) := by
  induction others with
  | nil =>
      rw [List.nil_append]
      cases publishKeys draws tag rest <;> rfl
  | cons other others ih =>
      have skipped : ¬(tag = other.base.tag ∧
          other.base.lastPubKeyRequest + requestInterval < draws.now) :=
        fun same => different other List.mem_cons_self same.1
      rw [List.cons_append, publishKeys, if_neg skipped,
        ih fun other member => different other (List.mem_cons_of_mem _ member)]
      cases publishKeys draws tag rest <;> rfl

/-- The owner gives its keys to `sendObj`. -/
theorem publishKeys_own {earlier later : List Addr} {pubkey : PacketPubkey}
    (encoded : own.encodePubKey draws = .ok (own.setLastPubKeyRequest draws.now, pubkey))
    (others : ∀ other ∈ earlier ++ later, own.base.tag ≠ other.base.tag)
    (due : own.base.lastPubKeyRequest + requestInterval < draws.now) :
    publishKeys draws own.base.tag (earlier ++ own :: later) =
      .ok (earlier ++ own.setLastPubKeyRequest draws.now :: later, [queued pubkey.toObject]) := by
  have last := @publishKeys_others platform draws own.base.tag later []
    fun other member => others other (List.mem_append_right _ member)
  rw [List.append_nil] at last
  rw [publishKeys_others (own :: later) fun other member => others other
    (List.mem_append_left _ member), publishKeys, if_pos ⟨rfl, due⟩, encoded, last]
  simp only [bind, Except.bind, pure, Except.pure, publishKeys, Except.map, List.append_nil]

end Node

/-- An entry with the keys of an address. -/
def PubAddr.withKeys (self : PubAddr) (own : Addr) : PubAddr := {
  self with
  pubSigningKey := own.pubSigningKey
  pubEncryptionKey := own.pubEncryptionKey
  nonceTrials := own.base.nonceTrials
  extraBytes := own.base.extraBytes
  empty := false }

namespace Node

variable {pubkey : PacketPubkey} {entries : List PubAddr}

/-- All entries that wait for these keys take them, and the others stay as they are. -/
theorem takeKeys_own {entries' : List PubAddr}
    (takes : ∀ entry ∈ entries, entry.waitingPubKey ∧ pubkey.tag = entry.tag →
      entry.decodeFromObj platform pubkey = .ok (true, entry.withKeys own))
    (taken : takeKeys draws pubkey entries = .ok entries') :
    entries' = entries.map fun entry =>
      if entry.waitingPubKey ∧ pubkey.tag = entry.tag then entry.withKeys own else entry := by
  induction entries generalizing entries' with
  | nil =>
      cases taken
      rfl
  | cons entry rest ih =>
      have others := fun {rest'} => @ih rest' fun other member =>
        takes other (List.mem_cons_of_mem _ member)
      rw [takeKeys] at taken
      rw [List.map_cons]
      split at taken
      next asked =>
        obtain ⟨entry', stored, taken⟩ := bind_eq_ok.mp taken
        obtain ⟨rest', read, taken⟩ := bind_eq_ok.mp taken
        cases taken
        obtain ⟨valid, decoded⟩ := takeKey_eq_ok stored
        cases decoded.symm.trans (takes entry List.mem_cons_self asked)
        rw [if_pos asked, others read]
      next skipped =>
        obtain ⟨rest', read, taken⟩ := bind_eq_ok.mp taken
        cases taken
        rw [if_neg skipped, others read]

/-- They do so when all of them can be stored with the keys. -/
theorem exists_takeKeys_own {header : UString} (short : pubkey.encrypted.length < intLimit)
    (signed : Object.signedHeader.value pubkey.messagePayload 8 = .ok header)
    (takes : ∀ entry ∈ entries, entry.waitingPubKey ∧ pubkey.tag = entry.tag →
      entry.decodeFromObj platform pubkey = .ok (true, entry.withKeys own))
    (storable : ∀ entry ∈ entries, entry.waitingPubKey ∧ pubkey.tag = entry.tag →
      (entry.withKeys own).Storable platform (draws.storing (entry.withKeys own))) :
    ∃ entries', takeKeys draws pubkey entries = .ok entries' := by
  refine (takeKeys_settles short signed entries).returns fun entry member asked => ?_
  have decoded := takes entry member asked
  refine ⟨(entry.decodeFromObj_settles short signed).returns_iff.mp ⟨_, decoded⟩, ?_⟩
  intro after again
  cases again.symm.trans decoded
  exact storable entry member asked

end Node

/-- Three of the four kinds of objects. -/
theorem Node.handleObj_getpubkey {self : Node} {uninit : Uninit} {obj : Object} {own : List Addr}
    {sent : List Object} (type : obj.objectType = typeGetpubkey)
    (published : publishKeys draws obj.objectPayload self.privAddresses = .ok (own, sent)) :
    self.handleObj draws uninit obj =
      .ok { self with privAddresses := own, objects := self.objects ++ sent } := by
  rw [handleObj, if_pos type]
  refine bind_eq_ok.mpr ⟨_, published, ?_⟩
  rfl

theorem Node.handleObj_pubkey {self : Node} {uninit : Uninit} {obj : Object}
    {pubkey : PacketPubkey} {entries : List PubAddr} (type : obj.objectType = typePubkey)
    (decoded : PacketPubkey.ofObject obj = .ok pubkey)
    (taken : takeKeys draws pubkey self.pubAddresses = .ok entries) :
    self.handleObj draws uninit obj = .ok { self with pubAddresses := entries } := by
  rw [handleObj, if_neg (by rw [type]; decide), if_pos type]
  refine bind_eq_ok.mpr ⟨pubkey, decoded, bind_eq_ok.mpr ⟨entries, taken, ?_⟩⟩
  rfl

/-- Of a `pubkey` object, the entries that take its keys are all that changes the book. -/
theorem Node.handleObj_pubkey_eq_ok {self after : Node} {uninit : Uninit} {obj : Object}
    {pubkey : PacketPubkey} (type : obj.objectType = typePubkey)
    (decoded : PacketPubkey.ofObject obj = .ok pubkey)
    (handled : self.handleObj draws uninit obj = .ok after) :
    takeKeys draws pubkey self.pubAddresses = .ok after.pubAddresses := by
  rw [handleObj, if_neg (by rw [type]; decide), if_pos type] at handled
  obtain ⟨found, again, handled⟩ := bind_eq_ok.mp handled
  cases decoded.symm.trans again
  obtain ⟨entries, taken, handled⟩ := bind_eq_ok.mp handled
  cases handled
  exact taken

theorem Node.handleObj_broadcast {self after : Node} {uninit : Uninit} {obj : Object}
    {broadcast : PacketBroadcast} {accepted : Bool} (type : obj.objectType = typeBroadcast)
    (decoded : PacketBroadcast.ofObject obj = .ok broadcast)
    (decrypted : self.decryptBroadcast draws uninit broadcast = .ok (accepted, after)) :
    self.handleObj draws uninit obj = .ok after := by
  rw [handleObj, if_neg (by rw [type]; decide), if_neg (by rw [type]; decide),
    if_neg (by rw [type]; decide), if_pos type]
  exact bind_eq_ok.mpr ⟨broadcast, decoded, bind_eq_ok.mpr ⟨_, decrypted, rfl⟩⟩

/-- The owner answers the request with the keys that `encodePubKey` gives it. -/
theorem request_answered {asker : PubAddr} {askDraws : Draws platform} {encrypted : UString}
    (encoded : own.encodePubKey draws =
      .ok (own.setLastPubKeyRequest draws.now, pubkeySent draws own encrypted))
    (sameTag : own.base.tag = asker.tag) {node : Node} {packet : Packet} {nonce : UInt64}
    (uninit : Uninit) {earlier later : List Addr}
    (listed : node.privAddresses = earlier ++ own :: later)
    (others : ∀ other ∈ earlier ++ later, own.base.tag ≠ other.base.tag)
    (due : own.base.lastPubKeyRequest + Node.requestInterval < draws.now) :
    ∃ answered, node.handleObj draws uninit
        (Node.received packet (Node.getpubkeyObject askDraws asker).toObject nonce) =
          .ok answered ∧
      answered.objects = node.objects ++ [Node.queued (pubkeySent draws own encrypted).toObject] ∧
      answered.privAddresses = earlier ++ own.setLastPubKeyRequest draws.now :: later := by
  have published := Node.publishKeys_own encoded others due
  rw [← listed] at published
  have handled := @Node.handleObj_getpubkey platform draws node uninit
    (Node.received packet (Node.getpubkeyObject askDraws asker).toObject nonce) _ _ rfl
    (show Node.publishKeys draws asker.tag node.privAddresses = _ from sameTag ▸ published)
  exact ⟨_, handled, rfl, rfl⟩

/-- The keys that arrive go into all entries that wait for them, and the handler comes back when
these can be stored. -/
theorem keys_taken (correct : platform.Correct) (loaded : own.Loaded platform)
    (keys : own.KeysMatch platform)
    (full : (platform.publicPoint (beNat own.base.tagE)).FullWidth) {encrypted : UString}
    (sealing : sealText draws own.privSigningKey ((pubkeyObject draws own).header ++ own.base.tag)
      (own.pubkeyText platform) (getPubOfPriv platform own.base.tagE) = .ok encrypted)
    {node : Node} {packet : Packet} {nonce : UInt64}
    (payload : packet.messagePayload =
      (Node.withNonce (Node.queued (pubkeySent draws own encrypted).toObject)
        nonce).messagePayload) (limit : packet.messagePayload.length ≤ 0x40000)
    (book : ∀ entry ∈ node.pubAddresses, own.base.tag = entry.tag →
      own.base.tagE = entry.tagE) (takeDraws : Draws platform) (uninit : Uninit) :
    ((∀ entry ∈ node.pubAddresses, entry.waitingPubKey ∧ own.base.tag = entry.tag →
      (entry.withKeys own).Storable platform (takeDraws.storing (entry.withKeys own))) →
        ∃ after, node.handleObj takeDraws uninit
          (Node.received packet (pubkeySent draws own encrypted).toObject nonce) = .ok after) ∧
    ∀ after, node.handleObj takeDraws uninit
        (Node.received packet (pubkeySent draws own encrypted).toObject nonce) = .ok after →
      after.pubAddresses = node.pubAddresses.map fun entry =>
        if entry.waitingPubKey ∧ own.base.tag = entry.tag then entry.withKeys own else entry := by
  have consistent := loaded.consistent
  have signed := (Node.decode_withNonce_queued payload (lt_intLimit limit)).2
  have tagged := @PacketPubkey.ofObject_tagged
    (Node.received packet (pubkeySent draws own encrypted).toObject nonce) _ _ rfl
    (readTagged_append encrypted consistent.tag_length)
  have short : encrypted.length < intLimit := by
    have size := sealText_length_ge sealing
    have text := pubkeyText_length_le keys
    simp only [intLimit]
    omega
  let pubkey : PacketPubkey := {
    (Node.received packet (pubkeySent draws own encrypted).toObject nonce).copy with
    tag := own.base.tag
    encrypted }
  have takes : ∀ entry ∈ node.pubAddresses, entry.waitingPubKey ∧ pubkey.tag = entry.tag →
      entry.decodeFromObj platform pubkey = .ok (true, entry.withKeys own) :=
    fun entry member asked => decodeFromObj_sealed correct keys full entry _
      consistent.tagE_length asked.2.symm (book entry member asked.2).symm rfl signed sealing short
  constructor
  · intro storable
    obtain ⟨entries, taken⟩ :=
      @Node.exists_takeKeys_own _ own takeDraws pubkey _ _ short signed takes storable
    exact ⟨_, Node.handleObj_pubkey rfl tagged taken⟩
  · intro after handled
    exact Node.takeKeys_own takes (Node.handleObj_pubkey_eq_ok rfl tagged handled)

/-- A request for an address that gets to its owner is answered, and wherever the answer gets to,
the handler comes back when all entries that wait for the keys of this address can be stored, and
when it comes back all of them have taken the keys. -/
theorem keys_exchanged (correct : platform.Correct) (loaded : own.Loaded platform)
    (keys : own.KeysMatch platform)
    (full : (platform.publicPoint (beNat own.base.tagE)).FullWidth) {before asker : PubAddr}
    (sameAddress : before.loadAddr platform own.base.address = .ok (true, asker))
    {askDraws : Draws platform} {request : Arrival}
    (asked : request.Travels platform (Node.getpubkeyObject askDraws asker).toObject) :
    ∃ question, request.Enters platform question ∧
      ∀ (owner : System) (j : Nat) (draws : Draws platform) (uninit : Uninit)
        (earlier later : List Addr), owner.listeners j = .announced question →
        owner.node.privAddresses = earlier ++ own :: later →
        (∀ other ∈ earlier ++ later, own.base.tag ≠ other.base.tag) →
        own.base.lastPubKeyRequest + Node.requestInterval < draws.now →
        ∃ answered pubkey, owner.node.handleObj draws uninit question = .ok answered ∧
          System.Step platform owner (.handle j question) (owner.proceed j .idle answered) ∧
          own.encodePubKey draws = .ok (own.setLastPubKeyRequest draws.now, pubkey) ∧
          answered.objects = owner.node.objects ++ [Node.queued pubkey.toObject] ∧
          answered.privAddresses = earlier ++ own.setLastPubKeyRequest draws.now :: later ∧
          ∀ answer : Arrival, answer.Travels platform pubkey.toObject →
            ∃ reply, answer.Enters platform reply ∧
              ∀ (asking : System) (k : Nat), asking.listeners k = .announced reply →
                (∀ entry ∈ asking.node.pubAddresses, own.base.tag = entry.tag →
                  own.base.tagE = entry.tagE) →
                (∀ (draws : Draws platform) (uninit : Uninit),
                  (∀ entry ∈ asking.node.pubAddresses,
                    entry.waitingPubKey ∧ own.base.tag = entry.tag →
                      (entry.withKeys own).Storable platform
                        (draws.storing (entry.withKeys own))) →
                  ∃ after, asking.node.handleObj draws uninit reply = .ok after ∧
                    System.Step platform asking (.handle k reply)
                      (asking.proceed k .idle after)) ∧
                ∀ after, System.Step platform asking (.handle k reply) after →
                  after.node.pubAddresses = asking.node.pubAddresses.map fun entry =>
                    if entry.waitingPubKey ∧ own.base.tag = entry.tag then entry.withKeys own
                    else entry := by
  have tags := loaded.consistent.same_tags sameAddress
  obtain ⟨_, _, _, enters⟩ := asked.enters
  refine ⟨_, enters, ?_⟩
  intro owner j draws uninit earlier later announced listed others due
  obtain ⟨encrypted, sealing, encoded⟩ := exists_encodePubKey draws correct full
  obtain ⟨answered, handled, objects, addresses⟩ :=
    request_answered encoded tags.1 uninit listed others due
  refine ⟨answered, _, handled, .handle announced handled, encoded, objects, addresses, ?_⟩
  intro answer travels
  obtain ⟨nonce, payload, limit, enters⟩ := travels.enters
  refine ⟨_, enters, ?_⟩
  intro asking k waiting book
  have taken := @keys_taken _ own draws correct loaded keys full _ sealing asking.node _ _
    payload limit book
  constructor
  · intro takeDraws uninit storable
    obtain ⟨after, handled⟩ := (taken takeDraws uninit).1 storable
    exact ⟨after, handled, .handle waiting handled⟩
  · intro after step
    cases step with
    | @handle _ stepDraws uninit _ _ _ result => exact (taken stepDraws uninit).2 _ result

/-- An address that has not been asked for. -/
def Addr.sampleUnasked : Addr := (Addr.sample 1).setLastPubKeyRequest 0

theorem Addr.sampleUnasked_keys : Addr.sampleUnasked.KeysMatch Platform.sample := by
  have keys := (Addr.sample_spec 1).2.1
  exact ⟨keys.1, keys.2, keys.3, keys.4, keys.5, keys.6⟩

/-- The entry can be stored with the keys of the sample address. -/
theorem sampleEntry_storable :
    ((Addr.sampleEntry 1).withKeys Addr.sampleUnasked).Storable Platform.sample
      (Draws.sample.storing ((Addr.sampleEntry 1).withKeys Addr.sampleUnasked)) := by
  have built := (Addr.sample_loaded 1).consistent.built
  refine ⟨⟨nofun, nofun, (buildAddressFromKeys_settles _ _ _ _).returns_iff.mp ⟨_, built⟩, ?_⟩,
    nofun⟩
  intro skey ekey first second longer
  refine ⟨[], rfl, fun addr found => ?_⟩
  have small := first.length
  have address := buildAddress_length found
  have total := updateQuery_length addr ((Addr.sampleEntry 1).withKeys Addr.sampleUnasked).version
    ((Addr.sampleEntry 1).withKeys Addr.sampleUnasked).stream skey []
  rw [List.length_nil] at total
  omega

/-- The sample address is listed by its owner and asked for by another node. -/
theorem keys_exchanged_sample : ∃ question owner answered pubkey reply asking after,
    System.Step Platform.sample owner (.handle 0 question) answered ∧
    answered.node.objects = [Node.queued pubkey] ∧
    System.Step Platform.sample asking (.handle 0 reply) after ∧
    asking.node.pubAddresses = [Addr.sampleEntry 1] ∧
    after.node.pubAddresses = [(Addr.sampleEntry 1).withKeys Addr.sampleUnasked] := by
  let owning : Node := { Node.new with privAddresses := [Addr.sampleUnasked] }
  let book : Node := { Node.new with pubAddresses := [Addr.sampleEntry 1] }
  let draws : Draws Platform.sample := { Draws.sample with now := 400000 }
  have loaded : Addr.sampleUnasked.Loaded Platform.sample :=
    ⟨_, Addr.sample 1, _, _, _, _, _, _, 0, (Addr.sample_spec 1).1, rfl⟩
  have keys := Addr.sampleUnasked_keys
  have tag_length := loaded.consistent.tag_length
  have asked : Arrival.Travels Platform.sample
      (Node.getpubkeyObject Draws.sample (Addr.sampleEntry 1)).toObject _ :=
    @Arrival.sample_travels _ 0 (by decide) (by decide) (by decide) (by
      show Addr.sampleUnasked.base.tag.length ≤ _
      omega)
  obtain ⟨question, _, answers⟩ := keys_exchanged Platform.sample_correct loaded keys
    (Platform.sample_fullWidth _) (Addr.sampleEntry_loads 1) asked
  obtain ⟨answered, pubkey, _, step, encoded, objects, _, takes⟩ :=
    answers ((System.idle owning).proceed 0 (.announced question) owning) 0 draws ⟨0, 0, 0, 0⟩
      [] [] (System.proceed_listeners _ 0 _ _) rfl (List.forall_mem_nil _) (by decide)
  obtain ⟨encrypted, sealing, same⟩ := exists_encodePubKey draws Platform.sample_correct
    (Platform.sample_fullWidth (beNat Addr.sampleUnasked.base.tagE))
  cases encoded.symm.trans same
  have size := sealText_length_ge sealing
  have text := pubkeyText_length_le keys
  have time : (pubkeySent draws Addr.sampleUnasked encrypted).time.toInt = 745600 :=
    (show draws.expiry.toInt = 745600 by decide)
  have now : (400000 : Int64).toInt = 400000 := by decide
  have travels : Arrival.Travels Platform.sample
      (pubkeySent draws Addr.sampleUnasked encrypted).toObject _ :=
    @Arrival.sample_travels _ 400000 (by decide) (by omega) (by omega) (by
      show (Addr.sampleUnasked.base.tag ++ encrypted).length ≤ _
      rw [List.length_append]
      omega)
  obtain ⟨reply, _, taken⟩ := takes _ travels
  obtain ⟨comesBack, entries⟩ :=
    taken ((System.idle book).proceed 0 (.announced reply) book) 0
      (System.proceed_listeners _ 0 _ _) (List.forall_mem_singleton.mpr fun _ => rfl)
  obtain ⟨after, _, moved⟩ := comesBack Draws.sample ⟨0, 0, 0, 0⟩
    (List.forall_mem_singleton.mpr fun _ => sampleEntry_storable)
  refine ⟨question, _, _, _, reply, _, _, step, objects, moved, rfl, ?_⟩
  rw [entries _ moved]
  exact congrArg (fun entry => [entry]) (if_pos ⟨rfl, rfl⟩)

end Keys

/-! ## Broadcasts -/

section Broadcasts

variable {own : Addr} {draws : Draws platform}

/-- A broadcast that gets to a node is stored for the subscribers of its address. -/
theorem broadcast_spreads (correct : platform.Correct) (loaded : own.Loaded platform)
    (keys : own.KeysMatch platform)
    (full : (platform.publicPoint (beNat own.base.tagE)).FullWidth) (message : UString)
    {before subscription : PubAddr}
    (sameAddress : before.loadAddr platform own.base.address = .ok (true, subscription)) :
    ∃ obj, (∀ sender : Node, sender.sendBroadcast draws message own = .ok (sender.sendObj obj)) ∧
      ∀ last : Arrival, last.Travels platform obj → ∃ wire, last.Enters platform wire ∧
        ∀ (sys : System) (k : Nat) (earlier later : List PubAddr),
          sys.listeners k = .announced wire →
          sys.node.subscriptions = earlier ++ subscription :: later →
          (∀ entry ∈ earlier, entry.tag ≠ own.base.tag) →
          (∃ after, System.Step platform sys (.handle k wire) after) ∧
          ∀ after, System.Step platform sys (.handle k wire) after →
            ∃ stored, after.node.messages.Stored stored ∧ stored.info = message ∧
              stored.«from» = own.base.address := by
  have consistent := loaded.consistent
  obtain ⟨encrypted, sealing, encoded⟩ := exists_broadcastObject draws correct message full
  obtain ⟨tagEq, tagEEq⟩ := consistent.same_tags sameAddress
  refine ⟨broadcastSent draws own encrypted, ?_, ?_⟩
  · intro sender
    simp only [Node.sendBroadcast, encoded, bind, Except.bind]
    rfl
  · intro last travels
    obtain ⟨nonce, payload, limit, enters⟩ := travels.enters
    refine ⟨_, enters, ?_⟩
    intro sys k earlier later announced subscribed first
    refine @System.handles platform sys k _ (fun node => ∃ stored, node.messages.Stored stored ∧
      stored.info = message ∧ stored.«from» = own.base.address) draws announced ?_
    intro handleDraws uninit
    obtain ⟨wire, received, after, decoded, tagged, decrypted, stored⟩ :=
      decryptBroadcast_sealed correct keys full consistent.tag_length consistent.tagE_length
        consistent.built sealing tagEq tagEEq subscribed first payload limit handleDraws uninit
    cases decoded.symm.trans enters.decoded
    exact ⟨after, Node.handleObj_broadcast rfl tagged decrypted, stored⟩

/-- A broadcast of the sample address reaches a subscriber. -/
theorem broadcast_spreads_sample : ∃ obj wire sys after,
    Node.new.sendBroadcast Draws.sample [104, 105] (Addr.sample 1) = .ok (Node.new.sendObj obj) ∧
    System.Step Platform.sample sys (.handle 0 wire) after ∧
    ∃ stored, after.node.messages.Stored stored ∧ stored.info = [104, 105] ∧
      stored.«from» = (Addr.sample 1).base.address := by
  have keys := (Addr.sample_spec 1).2.1
  obtain ⟨obj, sends, spreads⟩ := @broadcast_spreads _ _ Draws.sample Platform.sample_correct
    (Addr.sample_loaded 1) keys (Platform.sample_fullWidth _) [104, 105] _ _
    (Addr.sampleEntry_loads 1)
  obtain ⟨encrypted, sealing, encoded⟩ := @exists_broadcastObject _ (Addr.sample 1) Draws.sample
    Platform.sample_correct [104, 105] (Platform.sample_fullWidth _)
  have same := sends Node.new
  simp only [Node.sendBroadcast, encoded, bind, Except.bind] at same
  have queued : Node.queued (broadcastSent Draws.sample (Addr.sample 1) encrypted) =
      Node.queued obj := List.singleton_inj.mp (congrArg Node.objects (Except.ok.inj same))
  have time : obj.time = Draws.sample.expiry := (congrArg Object.time queued).symm
  have payload : obj.objectPayload =
      (broadcastSent Draws.sample (Addr.sample 1) encrypted).objectPayload :=
    (congrArg Object.objectPayload queued).symm
  have size := broadcastSent_length_le 0 keys sealing
  have tag_length := (Addr.sample_loaded 1).consistent.tag_length
  have two : ([104, 105] : UString).length = 2 := rfl
  rw [Node.withNonce_queued_payload, ← payload, List.length_append, List.length_append] at size
  have travels : Arrival.Travels Platform.sample obj _ :=
    @Arrival.sample_travels _ 0 (by decide) (by rw [time]; decide) (by rw [time]; decide)
      (by omega)
  obtain ⟨wire, _, stores⟩ := spreads _ travels
  obtain ⟨⟨after, step⟩, stored⟩ :=
    stores ((System.idle Node.sampleSubscriber).proceed 0 (.announced wire) Node.sampleSubscriber) 0
      [] [] (System.proceed_listeners _ 0 _ _) rfl (List.forall_mem_nil _)
  exact ⟨obj, wire, _, after, sends Node.new, step, stored after step⟩

end Broadcasts

end BitMRC

import BitMRC.Node.System

/-!
# What operations announce

Whatever is stored in the table is announced together with it: an operation leaves the
queue of packets and the peers alone, and the tags that it adds to the queue of
announcements are those of the payloads that it stores.  A payload is stored only when an
object with it has passed `validateObj`.
-/

namespace BitMRC

open Foundation UString

variable {platform : Platform}

namespace Node

/-- An object with this payload has passed the checks at some time. -/
def Admitted (platform : Platform) (payload : UString) : Prop :=
  ∃ (now : Int64) (packet : Packet) (obj : Object), Object.decodeData packet = .ok obj ∧
    obj.messagePayload = payload ∧ validateObj platform now obj = .ok true

/-- The checks look at the payload and at the time. -/
theorem Admitted.of_decoded {now : Int64} {packet : Packet} {obj decoded : Object}
    (valid : validateObj platform now obj = .ok true)
    (decodes : Object.decodeData packet = .ok decoded)
    (payload : decoded.messagePayload = obj.messagePayload) (time : decoded.time = obj.time) :
    Admitted platform obj.messagePayload := by
  refine ⟨now, packet, decoded, decodes, payload, ?_⟩
  rw [← valid, validateObj, validateObj, payload, time]

/-- `after` has announced `tags` since `before`, and stored the payloads that they name. -/
structure Reports (platform : Platform) (before after : Node) (tags : List (Block 32)) : Prop where
  newPackets : after.newPackets = before.newPackets
  nodes : after.nodes = before.nodes
  newInv : after.newInv = before.newInv ++ tags
  keeps : ∀ payload, before.sharedObj.Stored payload → after.sharedObj.Stored payload
  stored : ∀ tag ∈ tags, ∃ payload, after.sharedObj.Stored payload ∧
    inventoryHash platform payload = tag
  complete : ∀ payload, after.sharedObj.Stored payload → before.sharedObj.Stored payload ∨
    inventoryHash platform payload ∈ tags ∧ Admitted platform payload

/-- It has also given these objects to `sendObj`. -/
structure Gives (platform : Platform) (before after : Node) (tags : List (Block 32))
    (given : List Object) : Prop extends Reports platform before after tags where
  objects : after.objects = before.objects ++ given.map queued

variable {draws : Draws platform} {uninit : Uninit} {self after : Node}

namespace Reports

/-- Neither the table nor the queues are touched. -/
theorem quiet (sharedObj : after.sharedObj = self.sharedObj)
    (newPackets : after.newPackets = self.newPackets) (nodes : after.nodes = self.nodes)
    (newInv : after.newInv = self.newInv) : Reports platform self after [] where
  newPackets
  nodes
  newInv := by rw [newInv, List.append_nil]
  keeps := by
    intro payload stored
    rwa [sharedObj]
  stored := nofun
  complete := by
    intro payload stored
    rw [sharedObj] at stored
    exact .inl stored

theorem trans {middle : Node} {tags more : List (Block 32)}
    (first : Reports platform self middle tags) (second : Reports platform middle after more) :
    Reports platform self after (tags ++ more) where
  newPackets := second.newPackets.trans first.newPackets
  nodes := second.nodes.trans first.nodes
  newInv := by rw [second.newInv, first.newInv, List.append_assoc]
  keeps := fun payload stored => second.keeps payload (first.keeps payload stored)
  stored := by
    intro tag member
    rcases List.mem_append.mp member with earlier | later
    · obtain ⟨payload, stored, same⟩ := first.stored tag earlier
      exact ⟨payload, second.keeps payload stored, same⟩
    · exact second.stored tag later
  complete := by
    intro payload stored
    rcases second.complete payload stored with earlier | later
    · rcases first.complete payload earlier with before | told
      · exact .inl before
      · exact .inr ⟨List.mem_append_left _ told.1, told.2⟩
    · exact .inr ⟨List.mem_append_right _ later.1, later.2⟩

/-- A payload is inserted and announced. -/
theorem share_pushInv (buffer : UString) {payload : UString}
    (admitted : Admitted platform payload) :
    Reports platform self ((self.share platform buffer payload).2.pushInv platform payload)
      [inventoryHash platform payload] where
  newPackets := rfl
  nodes := rfl
  newInv := rfl
  keeps := by
    rintro other ⟨i, cur, member, rfl⟩
    exact ⟨i, cur, HashTable.mem_insert_of_mem _ _ _ _ member, rfl⟩
  stored := by
    intro tag member
    exact ⟨payload, self.share_stored platform buffer payload, (List.mem_singleton.mp member).symm⟩
  complete := by
    rintro other ⟨i, cur, member, rfl⟩
    rcases HashTable.mem_insert _ _ _ _ member with old | ⟨_, rfl⟩
    · exact .inl ⟨i, cur, old, rfl⟩
    · exact .inr ⟨List.mem_singleton_self _, admitted⟩

end Reports

namespace Gives

/-- Neither the table nor the queues are touched. -/
theorem quiet (sharedObj : after.sharedObj = self.sharedObj)
    (newPackets : after.newPackets = self.newPackets) (nodes : after.nodes = self.nodes)
    (newInv : after.newInv = self.newInv) (objects : after.objects = self.objects) :
    Gives platform self after [] [] where
  toReports := .quiet sharedObj newPackets nodes newInv
  objects := by rw [objects, List.map_nil, List.append_nil]

theorem refl : Gives platform self self [] [] := quiet rfl rfl rfl rfl rfl

theorem trans {middle : Node} {tags more : List (Block 32)} {given others : List Object}
    (first : Gives platform self middle tags given)
    (second : Gives platform middle after more others) :
    Gives platform self after (tags ++ more) (given ++ others) where
  toReports := first.toReports.trans second.toReports
  objects := by rw [second.objects, first.objects, List.map_append, List.append_assoc]

/-- What is queued is given. -/
theorem sendObj {middle : Node} (first : Gives platform self middle [] []) (obj : Object) :
    Gives platform self (middle.sendObj obj) [] [obj] where
  toReports := first.toReports.trans (.quiet rfl rfl rfl rfl)
  objects := by
    rw [Node.sendObj, first.objects, List.map_nil, List.append_nil]
    rfl

end Gives

/-! ## The operations -/

theorem propagate_gives {obj decoded : Object} {packet : Packet}
    (decodes : Object.decodeData packet = .ok decoded)
    (payload : decoded.messagePayload = obj.messagePayload) (time : decoded.time = obj.time)
    (result : self.propagate draws obj = .ok after) :
    ∃ tags, Gives platform self after tags [] := by
  unfold propagate at result
  obtain ⟨valid, checked, result⟩ := bind_eq_ok.mp result
  cases valid with
  | false =>
      cases result
      exact ⟨[], .refl⟩
  | true =>
      cases result
      have admitted := Admitted.of_decoded checked decodes payload time
      exact ⟨_, .share_pushInv draws.buffer admitted, (List.append_nil _).symm⟩

theorem storeMessage_gives {sender : Sender} {recipient message sign : UString}
    (result : self.storeMessage draws uninit sender recipient message sign = .ok after) :
    Gives platform self after [] [] := by
  unfold storeMessage at result
  obtain ⟨addr, _, result⟩ := bind_eq_ok.mp result
  obtain ⟨⟨loaded, entry⟩, _, result⟩ := bind_eq_ok.mp result
  dsimp only at result
  split at result
  next =>
    cases result
    exact .quiet rfl rfl rfl rfl rfl
  next =>
    cases result
    exact .quiet rfl rfl rfl rfl rfl

theorem acceptMsg_gives {msg : PacketMsg} {own : Addr} {recovered : UString} {accepted : Bool}
    (result : self.acceptMsg draws uninit msg own recovered = .ok (accepted, after)) :
    ∃ tags, Gives platform self after tags [] := by
  unfold acceptMsg at result
  obtain ⟨plain, _, result⟩ := bind_eq_ok.mp result
  split at result
  next =>
    cases result
    exact ⟨[], .refl⟩
  obtain ⟨verified, _, result⟩ := bind_eq_ok.mp result
  split at result
  next =>
    obtain ⟨acked, ack, result⟩ := bind_eq_ok.mp result
    unfold propagateAck at ack
    obtain ⟨packet, _, ack⟩ := bind_eq_ok.mp ack
    obtain ⟨obj, decoded, ack⟩ := bind_eq_ok.mp ack
    obtain ⟨tags, first⟩ := propagate_gives decoded rfl rfl ack
    rcases tryCatchAll_eq_ok result with stored | refused
    · obtain ⟨final, store, stored⟩ := bind_eq_ok.mp stored
      cases stored
      exact ⟨_, first.trans (storeMessage_gives store)⟩
    · cases refused
      exact ⟨tags, first⟩
  next =>
    cases result
    exact ⟨[], .refl⟩

theorem decryptMsg_gives {msg : PacketMsg} {accepted : Bool}
    (result : self.decryptMsg draws uninit msg = .ok (accepted, after)) :
    ∃ tags, Gives platform self after tags [] := by
  unfold decryptMsg at result
  split at result
  next =>
    cases result
    exact ⟨[], .refl⟩
  next own recovered _ =>
    rcases tryCatchAll_eq_ok result with accept | refused
    · exact acceptMsg_gives accept
    · cases refused
      exact ⟨[], .refl⟩

theorem decryptBroadcast_gives {msg : PacketBroadcast} {accepted : Bool}
    (result : self.decryptBroadcast draws uninit msg = .ok (accepted, after)) :
    Gives platform self after [] [] := by
  unfold decryptBroadcast at result
  split at result
  next =>
    cases result
    exact .refl
  next subscription recovered _ =>
    rcases tryCatchAll_eq_ok result with accept | refused
    · unfold acceptBroadcast at accept
      obtain ⟨plain, _, accept⟩ := bind_eq_ok.mp accept
      obtain ⟨verified, _, accept⟩ := bind_eq_ok.mp accept
      split at accept
      next =>
        obtain ⟨final, store, accept⟩ := bind_eq_ok.mp accept
        cases accept
        exact storeMessage_gives store
      next =>
        cases accept
        exact .refl
    · cases refused
      exact .refl

/-- The keys that are published are given to `sendObj` one after the other. -/
theorem publishKeys_given {tag : UString} {own own' : List Addr} {sent : List Object}
    (result : publishKeys draws tag own = .ok (own', sent)) :
    ∃ given : List Object, sent = given.map queued := by
  induction own generalizing own' sent with
  | nil =>
      cases result
      exact ⟨[], rfl⟩
  | cons address rest ih =>
      rw [publishKeys] at result
      split at result
      next =>
        obtain ⟨⟨noted, pubkey⟩, _, result⟩ := bind_eq_ok.mp result
        obtain ⟨⟨rest', others⟩, published, result⟩ := bind_eq_ok.mp result
        cases result
        obtain ⟨given, rfl⟩ := ih published
        exact ⟨pubkey.toObject :: given, rfl⟩
      next =>
        obtain ⟨⟨rest', others⟩, published, result⟩ := bind_eq_ok.mp result
        cases result
        exact ih published

theorem handleObj_gives {obj : Object}
    (result : self.handleObj draws uninit obj = .ok after) :
    ∃ tags given, Gives platform self after tags given := by
  unfold handleObj at result
  split at result
  next =>
    obtain ⟨⟨own, sent⟩, published, result⟩ := bind_eq_ok.mp result
    cases result
    obtain ⟨given, rfl⟩ := publishKeys_given published
    exact ⟨[], given, .quiet rfl rfl rfl rfl, rfl⟩
  split at result
  next =>
    obtain ⟨pubkey, _, result⟩ := bind_eq_ok.mp result
    obtain ⟨entries, _, result⟩ := bind_eq_ok.mp result
    cases result
    exact ⟨[], [], .quiet rfl rfl rfl rfl rfl⟩
  split at result
  next =>
    obtain ⟨⟨accepted, final⟩, decrypted, result⟩ := bind_eq_ok.mp result
    cases result
    obtain ⟨tags, gives⟩ := decryptMsg_gives decrypted
    exact ⟨tags, [], gives⟩
  split at result
  next =>
    obtain ⟨broadcast, _, result⟩ := bind_eq_ok.mp result
    obtain ⟨⟨accepted, final⟩, decrypted, result⟩ := bind_eq_ok.mp result
    cases result
    exact ⟨[], [], decryptBroadcast_gives decrypted⟩
  next =>
    cases result
    exact ⟨[], [], .refl⟩

theorem handleObj_reports {obj : Object}
    (result : self.handleObj draws uninit obj = .ok after) :
    ∃ tags, Reports platform self after tags := by
  obtain ⟨tags, given, gives⟩ := handleObj_gives result
  exact ⟨tags, gives.toReports⟩

theorem getPubKey_gives {address : PubAddr} (result : self.getPubKey draws address = .ok after) :
    ∃ given, Gives platform self after [] given := by
  rcases getPubKey_cases result with ⟨_, rfl⟩ | ⟨entries, _, rfl⟩ |
    ⟨_, _, _, _, ⟨found, _, rfl⟩ | ⟨_, rfl⟩⟩
  · exact ⟨[], .refl⟩
  · refine ⟨_, .sendObj ?_ (getpubkeyObject draws address).toObject⟩
    exact .quiet rfl rfl rfl rfl rfl
  · exact ⟨[], .quiet rfl rfl rfl rfl rfl⟩
  · refine ⟨_, .sendObj ?_ (getpubkeyObject draws address).toObject⟩
    exact .quiet rfl rfl rfl rfl rfl

/-- An object that `processPOW` has found a nonce for has passed the checks. -/
theorem Mines.admitted {obj : Object} {nonce : UInt64} (mines : Mines platform obj nonce true) :
    Admitted platform (withNonce obj nonce).messagePayload := by
  obtain ⟨_, _, _, _, valid⟩ := mines
  exact .of_decoded valid (@Object.decodeData_encodePayload _ (withNonce obj nonce).toPacket rfl)
    rfl rfl

/-- What an operation does with the queues: most only put something behind their ends. -/
theorem Operation.gives_cases (operation : self.Operation platform after) :
    (∃ tags given, Gives platform self after tags given) ∨
    after.sharedObj = self.sharedObj ∧ after.objects = self.objects ∧
      (after.newPackets ≠ self.newPackets ∨ after.newInv <:+ self.newInv) := by
  cases operation with
  | getPubKey _ _ result =>
      obtain ⟨given, gives⟩ := getPubKey_gives result
      exact .inl ⟨[], given, gives⟩
  | sendMessage result =>
      obtain ⟨obj, _, result⟩ := bind_eq_ok.mp result
      cases result
      exact .inl ⟨[], [obj], .sendObj .refl obj⟩
  | sendBroadcast result =>
      obtain ⟨obj, _, result⟩ := bind_eq_ok.mp result
      cases result
      exact .inl ⟨[], [obj], .sendObj .refl obj⟩
  | addSubscription address => exact .inl ⟨[], [], .quiet rfl rfl rfl rfl rfl⟩
  | generateRandom result => exact .inl ⟨[], [], .quiet rfl rfl rfl rfl rfl⟩
  | generateDeterministic result => exact .inl ⟨[], [], .quiet rfl rfl rfl rfl rfl⟩
  | send packet => exact .inr ⟨rfl, rfl, .inl (by simp [Node.send])⟩
  | takeQueued nodes packets messages inv => exact .inr ⟨rfl, rfl, .inr inv⟩

/-- Two operations work on the queues and leave the table alone. -/
theorem Operation.reports_cases (operation : self.Operation platform after) :
    (∃ tags, Reports platform self after tags) ∨ after.sharedObj = self.sharedObj ∧
      (after.newPackets ≠ self.newPackets ∨ after.newInv <:+ self.newInv) := by
  rcases operation.gives_cases with ⟨tags, given, gives⟩ | ⟨same, _, queues⟩
  · exact .inl ⟨tags, gives.toReports⟩
  · exact .inr ⟨same, queues⟩

/-- All operations but these two. -/
theorem Operation.reports {tags : List (Block 32)} (operation : self.Operation platform after)
    (newPackets : after.newPackets = self.newPackets) (nodes : after.nodes = self.nodes)
    (newInv : after.newInv = self.newInv ++ tags) : Reports platform self after tags := by
  rcases operation.reports_cases with ⟨reported, reports⟩ | ⟨sharedObj, other | inv⟩
  · have same : reported = tags := List.append_cancel_left (reports.newInv.symm.trans newInv)
    rwa [← same]
  · exact absurd newPackets other
  · have shorter := inv.length_le
    have longer := congrArg List.length newInv
    rw [List.length_append] at longer
    have none : tags = [] := List.length_eq_zero_iff.mp (by omega)
    rw [none, List.append_nil] at newInv
    rw [none]
    exact .quiet sharedObj newPackets nodes newInv

end Node

end BitMRC

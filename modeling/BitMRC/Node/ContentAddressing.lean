import BitMRC.Node.Announcement
import BitMRC.Node.Sharing

/-!
# Objects are addressed by their content

`processObj`, `propagate` and `load` insert payloads into `sharedObj`, all under their
inventory hash, so that the table is a `ContentMap` of payloads.  What the listener
answers to `inv` and `getdata` follows from this map.
-/

namespace BitMRC

open Foundation UString

variable {platform : Platform}

/-- A payload that decodes has a nonce. -/
theorem Storable.eight {payload : UString} (storable : Storable payload) :
    8 ≤ payload.length := by
  have short : payload.length < intLimit := Nat.lt_of_le_of_lt storable.short (by decide)
  have decodes := storable.decodes ⟨0, Platform.fit 12 [], 0, Platform.fit 4 [], payload⟩ rfl
  obtain ⟨obj, decoded⟩ := decodes
  exact Object.decodeData_eight short decoded

/-- A valid payload has a nonce, as its proof of work was computed. -/
theorem validateObj_eight {now : Int64} {obj : Object}
    (valid : Node.validateObj platform now obj = .ok true) : 8 ≤ obj.messagePayload.length := by
  unfold Node.validateObj at valid
  split at valid
  next => cases valid
  split at valid
  next => cases valid
  split at valid
  next => cases valid
  unfold checkPow at valid
  obtain ⟨pow, computed, _⟩ := bind_eq_ok.mp valid
  unfold doPow at computed
  obtain ⟨payload, behind, _⟩ := bind_eq_ok.mp computed
  unfold substr at behind
  split at behind
  next => cases behind
  next inside => exact Nat.le_of_not_lt inside

namespace Node

/-! ## The invariant -/

/-- The hash that a payload is inserted with. -/
def contentHash (platform : Platform) (payload : UString) : UString :=
  (inventoryHash platform payload).toUString

@[simp] theorem contentHash_length (payload : UString) :
    (contentHash platform payload).length = 32 := (inventoryHash platform payload).toUString_length

/-- The table holds the payloads of `map`, and each of them has passed a validation. -/
structure ContentAddressed (platform : Platform) (node : Node) (map : ContentMap UString) :
    Prop where
  holds : node.sharedObj.Holds (hashF []) (contentHash platform) map
  sized : ∀ payload ∈ map.contents, 8 ≤ payload.length ∧ payload.length ≤ 0x40000

namespace ContentAddressed

variable {self after : Node} {map : ContentMap UString}

theorem new : ContentAddressed platform Node.new ContentMap.empty where
  holds := HashTable.holds_empty
  sized := nofun

/-- Only the table matters. -/
theorem of_sharedObj (addressed : ContentAddressed platform self map)
    (same : after.sharedObj = self.sharedObj) : ContentAddressed platform after map := by
  constructor
  · rw [same]
    exact addressed.holds
  · exact addressed.sized

/-- One insertion, whatever the buffer of `hash_f` holds. -/
theorem insert (addressed : ContentAddressed platform self map) (buffer : UString)
    {payload : UString} (sized : 8 ≤ payload.length ∧ payload.length ≤ 0x40000)
    (inserted : after.sharedObj =
      (self.sharedObj.insert buffer payload (contentHash platform payload)).2) :
    ContentAddressed platform after (map.insert payload) := by
  constructor
  · rw [inserted, HashTable.insert_eq_of_four_le _ _ _ (by simp)]
    exact addressed.holds.insertBy payload
  · intro other member
    rcases ContentMap.mem_insert.mp member with earlier | rfl
    · exact addressed.sized other earlier
    · exact sized

theorem change (addressed : ContentAddressed platform self map)
    (change : Change platform self after) : ∃ map, ContentAddressed platform after map := by
  cases change with
  | share buffer payload storable =>
      exact ⟨map.insert payload, addressed.insert buffer ⟨storable.eight, storable.short⟩ rfl⟩
  | learn address listed => exact ⟨map, addressed.of_sharedObj rfl⟩
  | update pubAddresses updated => exact ⟨map, addressed.of_sharedObj rfl⟩
  | adopt own generated => exact ⟨map, addressed.of_sharedObj rfl⟩
  | publish privAddresses noted => exact ⟨map, addressed.of_sharedObj rfl⟩
  | other _ agrees newInv => exact ⟨map, addressed.of_sharedObj agrees.sharedObj⟩

theorem changes (addressed : ContentAddressed platform self map)
    (changes : Changes platform self after) : ∃ map, ContentAddressed platform after map := by
  induction changes with
  | refl => exact ⟨map, addressed⟩
  | tail _ last ih =>
      obtain ⟨between, addressed⟩ := ih
      exact addressed.change last

/-- `propagate` validates the payload, whatever the other members of the object are. -/
theorem propagate (addressed : ContentAddressed platform self map) {draws : Draws platform}
    {obj : Object} (result : self.propagate draws obj = .ok after) :
    ∃ map, ContentAddressed platform after map := by
  unfold Node.propagate at result
  obtain ⟨valid, validated, result⟩ := bind_eq_ok.mp result
  cases valid with
  | false =>
      cases result
      exact ⟨map, addressed⟩
  | true =>
      cases result
      have sized := And.intro (validateObj_eight validated) (validateObj_short validated)
      exact ⟨map.insert obj.messagePayload, addressed.insert draws.buffer sized rfl⟩

/-- `processObj` of any object. -/
theorem processObj (addressed : ContentAddressed platform self map) {draws : Draws platform}
    {uninit : Uninit} {obj : Object}
    (result : self.processObj draws uninit obj = .ok after) :
    ∃ map, ContentAddressed platform after map := by
  unfold Node.processObj at result
  obtain ⟨valid, validated, result⟩ := bind_eq_ok.mp result
  cases valid with
  | false =>
      cases result
      exact ⟨map, addressed⟩
  | true =>
      have sized := And.intro (validateObj_eight validated) (validateObj_short validated)
      simp only [if_true] at result
      split at result
      next =>
        cases result
        exact ⟨_, addressed.insert draws.buffer sized rfl⟩
      next =>
        have announced : ContentAddressed platform
            ((self.share platform draws.buffer obj.messagePayload).2.pushInv platform
              obj.messagePayload) (map.insert obj.messagePayload) :=
          addressed.insert draws.buffer sized rfl
        exact announced.changes (handleObj_changes result)

/-! ### Loading what was saved -/

theorem mem_toList (addressed : ContentAddressed platform self map) {cur : LinkedNode UString}
    (member : cur ∈ self.sharedObj.toList) :
    cur.hash = contentHash platform cur.info ∧ cur.info ∈ map.contents := by
  have found := addressed.holds.toList_perm.mem_iff.mp member
  obtain ⟨info, stored, rfl⟩ := List.mem_map.mp found
  exact ⟨rfl, stored⟩

/-- The keys are loaded first and leave the table alone. -/
theorem loadKeysFile_sharedObj {uninit : Uninit} {kFile : UString}
    (result : self.loadKeysFile platform uninit kFile = .ok after) :
    after.sharedObj = self.sharedObj := by
  refine @Cursor.drain_invariant _ _ _ _ caught _ _
    (fun node : Node => node.sharedObj = self.sharedObj) ?_ _ _ _ _ _ rfl result
  intro node file position next value read same
  cases value <;> exact same

end ContentAddressed

/-- The two fields of a record, without the object that is decoded from them. -/
def readNode : FileReader (LinkedNode UString) := do
  let hash ← FileUString.getUstring 32
  let info ← FileUString.getVarUstringB
  return ⟨hash, info⟩

theorem readObjectRecord_eq (draws : Draws platform) : readObjectRecord draws = (readNode >>=
    fun cur => Cursor.lift (Object.decodeData
      { draws.object with messagePayload := cur.info }.toPacket) >>= fun obj =>
        pure (cur, obj)) := by
  simp only [readObjectRecord, readNode, bind_assoc, pure_bind]

/-- The fields come back from a record that the table gave rise to. -/
theorem readNode_reads {cur : LinkedNode UString} (hash : cur.hash.length = 32)
    (positive : 0 < cur.info.length) (short : cur.info.length < intLimit) :
    FileUString.Reads readNode (writeObject [] cur) cur := by
  have written : writeObject [] cur = cur.hash ++ appendVarUstringB [] cur.info := by
    have nonempty : cur.info ≠ [] := List.length_pos_iff.mp positive
    simp [writeObject, hash, nonempty, FileUString.writeUstring, FileUString.writeVarUstringB_eq]
  rw [written]
  exact (FileUString.getUstring_reads (by rw [hash]; rfl)).bind
    ((FileUString.getVarUstringB_reads short).map _)

namespace ContentAddressed

variable {self after saved : Node} {map : ContentMap UString}

/-- The objects that are loaded were saved, so they are inserted under their own hashes. -/
theorem loadObjectsFile {other : ContentMap UString}
    (savedAddressed : ContentAddressed platform saved other)
    (addressed : ContentAddressed platform self map) {draws : Draws platform} {m : Nat}
    (result : self.loadObjectsFile draws (saved.saveObjects.take m) = .ok after) :
    ∃ map, ContentAddressed platform after map := by
  have inside : ∀ record ∈ saved.objectRecords,
      FileUString.Reads readNode record.1 record.2 ∧
        record.2.hash = contentHash platform record.2.info ∧ record.2.info ∈ other.contents := by
    intro record member
    obtain ⟨cur, listed, rfl⟩ := List.mem_map.mp member
    obtain ⟨hash, stored⟩ := savedAddressed.mem_toList listed
    obtain ⟨low, high⟩ := savedAddressed.sized cur.info stored
    refine ⟨readNode_reads (by rw [hash]; simp) (by omega) ?_, hash, stored⟩
    exact Nat.lt_of_le_of_lt high (by decide)
  rw [Node.loadObjectsFile, saveObjects_eq] at result
  refine @Cursor.drain_related _ _ _ _ _ caught _ _ (fun cur value => value.1 = cur)
    (fun node => ∃ map, ContentAddressed platform node map) _ ?whole ?cut ?ends ?step []
    _ _ _ _ ⟨map, addressed⟩ result
  case whole =>
    intro record member before behind value next read
    have fields := (inside record member).1.whole before behind
    rw [readObjectRecord_eq, Cursor.bind_of_ok fields] at read
    obtain ⟨obj, _, decoded, read⟩ := Cursor.bind_eq_ok.mp read
    unfold Cursor.lift at decoded
    split at decoded
    next =>
      cases decoded
      cases read
      exact ⟨rfl, rfl⟩
    next => cases decoded
  case cut =>
    intro record member before n torn found read
    have fields := (inside record member).1.cut before n torn
    rw [readObjectRecord_eq, Cursor.bind_of_error fields] at read
    cases read
  case ends =>
    intro file found read
    rw [readObjectRecord_ends] at read
    cases read
  case step =>
    rintro record member node value same ⟨map, addressed⟩
    obtain ⟨_, hash, stored⟩ := inside record member
    unfold addObject
    split
    next =>
      rw [← same] at hash stored
      exact ⟨map.insert value.1.info, addressed.insert draws.buffer
        (savedAddressed.sized _ stored) (by rw [← hash])⟩
    next => exact ⟨map, addressed⟩

theorem load {other : ContentMap UString} (savedAddressed : ContentAddressed platform saved other)
    {draws : Draws platform} {uninit : Uninit} {m : Nat} {kFile : Option UString}
    (result : Node.new.load draws uninit (some (saved.saveObjects.take m)) kFile = .ok after) :
    ∃ map, ContentAddressed platform after map := by
  unfold Node.load at result
  obtain ⟨keys, loaded, result⟩ := bind_eq_ok.mp result
  have same : keys.sharedObj = Node.new.sharedObj := by
    cases kFile with
    | none =>
        cases loaded
        rfl
    | some file => exact loadKeysFile_sharedObj loaded
  exact savedAddressed.loadObjectsFile (new.of_sharedObj same) result

/-! ### Lookups -/

theorem stored_iff (addressed : ContentAddressed platform self map) (payload : UString) :
    self.sharedObj.Stored payload ↔ payload ∈ map.contents := by
  constructor
  · rintro ⟨i, found, member, rfl⟩
    obtain ⟨info, stored, _, rfl⟩ := addressed.holds.mem_table.mp member
    exact stored
  · intro stored
    exact ⟨_, _, addressed.holds.mem_table.mpr ⟨payload, stored, rfl, rfl⟩, rfl⟩

theorem present_iff (addressed : ContentAddressed platform self map) (buffer : UString)
    (tag : Block 32) : self.sharedObj.present buffer tag.toUString = true ↔
      ∃ payload, self.sharedObj.Stored payload ∧ inventoryHash platform payload = tag := by
  rw [HashTable.present_eq_of_four_le _ _ (by simp), addressed.holds.presentBy_iff]
  simp only [addressed.stored_iff, contentHash]
  constructor
  · rintro ⟨payload, stored, same⟩
    exact ⟨payload, stored, Block.ext same⟩
  · rintro ⟨payload, stored, rfl⟩
    exact ⟨payload, stored, rfl⟩

/-- A search gives a stored payload with this hash, or nothing if there is none. -/
theorem searchByHash_cases (addressed : ContentAddressed platform self map) (buffer : UString)
    (tag : Block 32) :
    (∃ payload, self.sharedObj.searchByHash [] buffer tag.toUString = payload ∧ payload ≠ [] ∧
      self.sharedObj.Stored payload ∧ inventoryHash platform payload = tag) ∨
    self.sharedObj.searchByHash [] buffer tag.toUString = [] ∧
      self.sharedObj.present buffer tag.toUString = false := by
  rw [HashTable.searchByHash_eq_of_four_le _ _ _ (by simp), addressed.holds.searchBy_eq]
  cases found : map.contents.find? fun info => contentHash platform info = tag.toUString with
  | some payload =>
      have stored := List.mem_of_find?_eq_some found
      have same := List.find?_some found
      refine .inl ⟨payload, rfl, ?_, (addressed.stored_iff payload).mpr stored, ?_⟩
      · rintro rfl
        exact absurd (addressed.sized [] stored).1 (by decide)
      · exact Block.ext (of_decide_eq_true same)
  | none =>
      refine .inr ⟨rfl, ?_⟩
      rw [← Bool.not_eq_true, addressed.present_iff]
      rintro ⟨payload, stored, rfl⟩
      have absent := List.find?_eq_none.mp found payload ((addressed.stored_iff payload).mp stored)
      exact absent (decide_eq_true rfl)

end ContentAddressed

/-! ## What the listener answers -/

/-- Some shared object has this tag. -/
def hasTag (platform : Platform) (self : Node) (tag : Block 32) : Bool :=
  self.sharedObj.toList.any fun cur => inventoryHash platform cur.info = tag

theorem hasTag_iff {self : Node} {tag : Block 32} : self.hasTag platform tag = true ↔
    ∃ payload, self.sharedObj.Stored payload ∧ inventoryHash platform payload = tag := by
  simp only [hasTag, List.any_eq_true, decide_eq_true_iff]
  constructor
  · rintro ⟨cur, listed, same⟩
    obtain ⟨i, _, member⟩ := List.mem_flatMap.mp listed
    exact ⟨cur.info, ⟨i, cur, member, rfl⟩, same⟩
  · rintro ⟨_, ⟨i, cur, member, rfl⟩, same⟩
    exact ⟨cur, List.mem_flatMap.mpr ⟨i, List.mem_finRange i, member⟩, same⟩

theorem ContentAddressed.present_eq_hasTag {self : Node} {map : ContentMap UString}
    (addressed : ContentAddressed platform self map) (buffer : UString) (tag : Block 32) :
    self.sharedObj.present buffer tag.toUString = self.hasTag platform tag := by
  rw [Bool.eq_iff_iff, addressed.present_iff, hasTag_iff]

/-- One more packet in the queue asks for exactly these tags; nothing is asked for when
there are none. -/
def Requests (conn : Connection) (needed : List (Block 32)) (after : Connection) : Prop :=
  (needed = [] → after = conn) ∧
  (needed ≠ [] → ∃ packet getdata, after = { conn with packets := conn.packets ++ [packet] } ∧
    cStr packet.command.toUString = getdataName ∧ PacketGetdata.ofPacket packet = .ok getdata ∧
    getdata.inventory = needed)

/-- The new packets in the queue carry, in order, a shared object for each of these tags. -/
def Answers (platform : Platform) (self : Node) (conn : Connection) (wanted : List (Block 32))
    (after : Connection) : Prop :=
  ∃ answers : List Packet, after = { conn with packets := conn.packets ++ answers } ∧
    (answers.map fun answer => inventoryHash platform answer.messagePayload) = wanted ∧
    ∀ answer ∈ answers, cStr answer.command.toUString = objectName ∧
      self.sharedObj.Stored answer.messagePayload

variable {draws : Draws platform} {self : Node} {conn : Connection} {packet : Packet}

/-- A list of tags that fits into a payload is requested. -/
theorem requests_getdata {needed : List (Block 32)} (fits : needed.length * 32 < intLimit)
    (nonempty : needed ≠ []) :
    Requests conn needed {
      conn with
      packets := conn.packets ++ [setChecksumLenghtMagic platform
        (PacketGetdata.encodeData ⟨draws.object.toPacket, needed⟩).toPacket] } := by
  refine ⟨fun empty => absurd empty nonempty, fun _ => ?_⟩
  generalize packetEq : setChecksumLenghtMagic platform
    (PacketGetdata.encodeData ⟨draws.object.toPacket, needed⟩).toPacket = packet
  have short : (inventoryPayload needed).length < intLimit := by
    have count := appendVarIntB_length_le (UInt64.ofNat needed.length)
    rw [inventoryPayload_length]
    simp only [intLimit] at fits ⊢
    omega
  have decoded : readInventory.value packet.messagePayload 0 = .ok needed := by
    rw [← packetEq]
    exact readInventory_payload short
  refine ⟨packet, { packet.copy with inventory := needed }, rfl, ?_, ?_, rfl⟩
  · rw [← packetEq]
    exact cStr_setCommand draws.object.toPacket getdataName (by decide)
  · rw [PacketGetdata.ofPacket, decoded]
    rfl

theorem handleInv_requests {map : ContentMap UString}
    (addressed : ContentAddressed platform self map) {inv : PacketInv}
    (decoded : PacketInv.ofPacket packet = .ok inv)
    (short : packet.messagePayload.length < intLimit) :
    ∃ after, self.handleInv draws conn packet = .ok after ∧
      Requests conn (inv.inventory.filter fun tag => !self.hasTag platform tag) after := by
  have listed : inv.inventory.length * 32 < intLimit := by
    obtain ⟨inventory, read, packed⟩ := bind_eq_ok.mp decoded
    cases packed
    exact Nat.lt_of_le_of_lt (readInventory_length short read) short
  rw [handleInv, decoded]
  simp only [bind, Except.bind, addressed.present_eq_hasTag]
  generalize neededEq : (inv.inventory.filter fun tag => !self.hasTag platform tag) = needed
  have fits : needed.length * 32 < intLimit := by
    have fewer := inv.inventory.length_filter_le fun tag => !self.hasTag platform tag
    rw [neededEq] at fewer
    omega
  by_cases empty : needed = []
  · rw [if_pos empty]
    exact ⟨conn, rfl, fun _ => rfl, fun nonempty => absurd empty nonempty⟩
  · rw [if_neg empty]
    exact ⟨_, rfl, requests_getdata fits empty⟩

/-- The answers to a list of tags; a tag that nothing stored has is passed over. -/
theorem answers_tags {map : ContentMap UString} (addressed : ContentAddressed platform self map)
    (tags : List (Block 32)) :
    Answers platform self conn (tags.filter (self.hasTag platform)) {
      conn with
      packets := conn.packets ++ tags.filterMap fun tag =>
        let objPayload := self.sharedObj.searchByHash [] draws.buffer tag.toUString
        if objPayload = [] then none else some (objectPacket draws objPayload) } := by
  refine ⟨_, rfl, ?_⟩
  induction tags with
  | nil => exact ⟨rfl, nofun⟩
  | cons tag rest ih =>
      obtain ⟨hashes, packets⟩ := ih
      rcases addressed.searchByHash_cases draws.buffer tag with
        ⟨payload, found, nonempty, stored, same⟩ | ⟨found, absent⟩
      · have has : self.hasTag platform tag = true := hasTag_iff.mpr ⟨payload, stored, same⟩
        rw [List.filter_cons_of_pos has,
          @List.filterMap_cons_some _ _ _ tag rest (objectPacket draws payload)
            (by simp [found, nonempty])]
        constructor
        · rw [List.map_cons, hashes]
          exact congrArg (· :: _) same
        · intro answer member
          rcases List.mem_cons.mp member with rfl | later
          · exact ⟨rfl, stored⟩
          · exact packets answer later
      · rw [addressed.present_eq_hasTag] at absent
        rw [List.filter_cons_of_neg (by simp [absent]), List.filterMap_cons_none (by simp [found])]
        exact ⟨hashes, packets⟩

theorem handleGetdata_answers {map : ContentMap UString}
    (addressed : ContentAddressed platform self map) {getdata : PacketGetdata}
    (decoded : PacketGetdata.ofPacket packet = .ok getdata) :
    ∃ after, self.handleGetdata draws conn packet = .ok after ∧
      Answers platform self conn (getdata.inventory.filter (self.hasTag platform)) after := by
  rw [handleGetdata, decoded]
  exact ⟨_, rfl, answers_tags addressed getdata.inventory⟩

/-! ## Runs of `processObj` and `propagate` -/

/-- What a node becomes that starts empty, or with the files of such a node, which may
have been cut off. -/
inductive SharedReachable (platform : Platform) : Node → Prop
  | new : SharedReachable platform Node.new
  | load {saved after : Node} (reachable : SharedReachable platform saved)
      (draws : Draws platform) (uninit : Uninit) (m : Nat) (kFile : Option UString)
      (result : Node.new.load draws uninit (some (saved.saveObjects.take m)) kFile = .ok after) :
      SharedReachable platform after
  | processObj {self after : Node} (reachable : SharedReachable platform self)
      (draws : Draws platform) (uninit : Uninit) (obj : Object)
      (result : self.processObj draws uninit obj = .ok after) : SharedReachable platform after
  | propagate {self after : Node} (reachable : SharedReachable platform self)
      (draws : Draws platform) (obj : Object) (result : self.propagate draws obj = .ok after) :
      SharedReachable platform after

theorem SharedReachable.addressed (reachable : SharedReachable platform self) :
    ∃ map, ContentAddressed platform self map := by
  induction reachable with
  | new => exact ⟨_, .new⟩
  | load _ draws uninit m kFile result ih =>
      obtain ⟨other, addressed⟩ := ih
      exact addressed.load result
  | processObj _ draws uninit obj result ih =>
      obtain ⟨map, addressed⟩ := ih
      exact addressed.processObj result
  | propagate _ draws obj result ih =>
      obtain ⟨map, addressed⟩ := ih
      exact addressed.propagate result

/-- Every entry is where its content belongs, no content is there twice, and the
listener asks for and hands out exactly what the tags of the contents say. -/
theorem content_addressed (reachable : SharedReachable platform self) :
    (∀ i, ∀ cur ∈ self.sharedObj.table i,
      cur.hash = (inventoryHash platform cur.info).toUString ∧
        ∀ buffer, hashF buffer cur.hash = i) ∧
    (self.sharedObj.toList.map LinkedNode.info).Nodup ∧
    (∀ (draws : Draws platform) (uninit : Uninit) (memory : PacketVersion) (fuel : Nat)
      (conn : Connection) (ending : Ending) (received : UString) (start stop : Nat)
      (packet : Packet), Packet.getCommand ending received start = .ok (packet, stop) →
      (∀ inv, cStr packet.command.toUString = invName → PacketInv.ofPacket packet = .ok inv →
        ∃ after, self.handlePacket draws uninit memory fuel conn packet = .ok (some (self, after)) ∧
          Requests conn (inv.inventory.filter fun tag => !self.hasTag platform tag) after) ∧
      ∀ getdata, cStr packet.command.toUString = getdataName →
        PacketGetdata.ofPacket packet = .ok getdata →
        ∃ after, self.handlePacket draws uninit memory fuel conn packet = .ok (some (self, after)) ∧
          Answers platform self conn (getdata.inventory.filter (self.hasTag platform)) after) := by
  obtain ⟨map, addressed⟩ := reachable.addressed
  refine ⟨?_, ?_, ?_⟩
  · intro i cur member
    obtain ⟨chain, hash⟩ := addressed.holds.chain member
    refine ⟨hash, fun buffer => ?_⟩
    rw [← chain]
    exact hashF_of_four_le (by simp [hash]) buffer []
  · have infos := addressed.holds.toList_perm.map LinkedNode.info
    rw [List.map_map] at infos
    exact infos.nodup_iff.mpr ((List.map_id map.contents).symm ▸ map.once)
  · intro draws uninit memory fuel conn ending received start stop packet read
    constructor
    · intro inv name decoded
      have short := Packet.payload_short (Packet.getCommand_length read)
      obtain ⟨after, handled, requests⟩ := handleInv_requests addressed decoded short
      refine ⟨after, ?_, requests⟩
      rw [handlePacket, name]
      exact congrArg (fun result => result >>= fun conn => pure (some (self, conn))) handled
    · intro getdata name decoded
      obtain ⟨after, handled, answers⟩ := handleGetdata_answers addressed decoded
      refine ⟨after, ?_, answers⟩
      rw [handlePacket, name]
      exact congrArg (fun result => result >>= fun conn => pure (some (self, conn))) handled

/-- A list of tags under one of the two commands. -/
def sampleTags (name : UString) (name_length : name.length ≤ 11)
    (name_nonzero : ∀ byte ∈ name, byte ≠ 0) (tags : List (Block 32))
    (few : tags.length ≤ 50000) : Frame where
  magic := 0xE9BEB4D9
  name
  name_length
  name_nonzero
  checksum := Platform.fit 4 []
  payload := inventoryPayload tags
  payload_short := inventoryPayload_short few

/-- The tag of the sample object, and one that it does not have. -/
def sampleInventory : List (Block 32) :=
  [inventoryHash Platform.sample Object.sample.messagePayload, Platform.fit 32 []]

/-- With one object a node asks for the other tag, and answers with the object. -/
theorem content_addressed_sample : ∃ self inv getdata requested answered,
    Node.new.propagate Draws.sample Object.sample = .ok self ∧
    self.handlePacket Draws.sample ⟨0, 0, 0, 0⟩ sampleVersion 0 sampleConnection inv =
      .ok (some (self, requested)) ∧
    Requests sampleConnection [Platform.fit 32 []] requested ∧
    self.handlePacket Draws.sample ⟨0, 0, 0, 0⟩ sampleVersion 0 sampleConnection getdata =
      .ok (some (self, answered)) ∧
    Answers Platform.sample self sampleConnection
      [inventoryHash Platform.sample Object.sample.messagePayload] answered := by
  have shared : Node.new.propagate Draws.sample Object.sample =
      .ok ((Node.new.share Platform.sample [] Object.sample.messagePayload).2.pushInv
        Platform.sample Object.sample.messagePayload) := by
    rw [propagate, Object.valid_sample]
    rfl
  generalize sharing : (Node.new.share Platform.sample [] Object.sample.messagePayload).2.pushInv
    Platform.sample Object.sample.messagePayload = self at shared
  have has : ∀ tag, self.hasTag Platform.sample tag =
      decide (inventoryHash Platform.sample Object.sample.messagePayload = tag) := by
    intro tag
    have listed : self.sharedObj.toList = [⟨(inventoryHash Platform.sample
        Object.sample.messagePayload).toUString, Object.sample.messagePayload⟩] := by
      rw [← sharing]
      exact HashTable.toList_insert_empty _ _ _
    rw [hasTag, listed]
    simp
  have different : inventoryHash Platform.sample Object.sample.messagePayload ≠
      Platform.fit 32 [] := by decide +kernel
  have addressed := content_addressed (.propagate .new Draws.sample Object.sample shared)
  have listener := addressed.2.2 Draws.sample ⟨0, 0, 0, 0⟩ sampleVersion 0 sampleConnection .closed
  have few : sampleInventory.length ≤ 50000 := by decide
  have read : readInventory.value (inventoryPayload sampleInventory) 0 = .ok sampleInventory :=
    readInventory_payload (inventoryPayload_short few)
  let inv := sampleTags invName (by decide) (by simp [invName]) sampleInventory few
  let getdata :=
    sampleTags getdataName (by decide) (by simp [getdataName]) sampleInventory few
  obtain ⟨requested, requesting, requests⟩ :=
    (listener _ 0 _ _ (inv.getCommand_bytes .closed [])).1
      { inv.packet.copy with inventory := sampleInventory } inv.cStr_command
      (by rw [PacketInv.ofPacket]; exact congrArg (· >>= _) read)
  obtain ⟨answered, answering, answers⟩ :=
    (listener _ 0 _ _ (getdata.getCommand_bytes .closed [])).2
      { getdata.packet.copy with inventory := sampleInventory } getdata.cStr_command
      (by rw [PacketGetdata.ofPacket]; exact congrArg (· >>= _) read)
  refine ⟨self, inv.packet, getdata.packet, requested, answered, shared, requesting, ?_,
    answering, ?_⟩
  · simpa [sampleInventory, has, different] using requests
  · simpa [sampleInventory, has, different] using answers

end Node

end BitMRC

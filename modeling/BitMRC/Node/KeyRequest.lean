import BitMRC.Node.AddressBook
import BitMRC.Node.System
import BitMRC.Utils.HashTableMap

/-!
# What a call of `getPubKey` leaves behind

`getPubKey` looks for an address by version and tag, but `addAddr` and `sendMessage`
go by the address string, and a stored pubkey object with the right tag ends the call
whether its keys are accepted or not.  Both results below say exactly when this makes
a difference.
-/

namespace BitMRC

open Foundation UString

variable {platform : Platform}

/-! ## Entries that stand for an address -/

/-- The entry that `getPubKey` takes for the address. -/
def PubAddr.StandsFor (entry address : PubAddr) : Prop :=
  entry.version = address.version ∧
    (if 4 ≤ address.version then entry.tag = address.tag else entry.ripe = address.ripe)

instance (entry address : PubAddr) : Decidable (entry.StandsFor address) := by
  unfold PubAddr.StandsFor
  exact inferInstance

theorem PubAddr.standsFor_tag {entry address : PubAddr} (tagged : 4 ≤ address.version) :
    entry.StandsFor address ↔ entry.version = address.version ∧ entry.tag = address.tag := by
  rw [StandsFor, if_pos tagged]

namespace Node

theorem requestAgain_cons (now : Int64) (address entry : PubAddr) (rest : List PubAddr) :
    requestAgain now address (entry :: rest) =
      if entry.StandsFor address then
        if entry.waitingPubKey then
          some (true, { entry with lastPubKeyRequest := now } :: rest)
        else
          none
      else
        (requestAgain now address rest).map fun found => (found.1, entry :: found.2) := by
  by_cases here : entry.StandsFor address
  · rw [if_pos here]
    exact if_pos here
  · rw [if_neg here]
    exact if_neg here

/-- The three outcomes of the walk over the address book. -/
theorem requestAgain_cases (now : Int64) (address : PubAddr) (entries : List PubAddr) :
    ((∀ entry ∈ entries, ¬entry.StandsFor address) ∧
      requestAgain now address entries = some (false, entries)) ∨
    (∃ entry ∈ entries, entry.StandsFor address ∧ entry.waitingPubKey = false ∧
      requestAgain now address entries = none) ∨
    (∃ entry ∈ entries, entry.StandsFor address ∧ entry.waitingPubKey = true ∧
      ∃ entries', requestAgain now address entries = some (true, entries') ∧
        { entry with lastPubKeyRequest := now } ∈ entries') := by
  induction entries with
  | nil => exact .inl ⟨fun _ member => absurd member List.not_mem_nil, rfl⟩
  | cons entry rest ih =>
      by_cases here : entry.StandsFor address
      · cases waits : entry.waitingPubKey with
        | false =>
            refine .inr (.inl ⟨entry, List.mem_cons_self, here, waits, ?_⟩)
            rw [requestAgain_cons, if_pos here, waits]
            rfl
        | true =>
            refine .inr (.inr ⟨entry, List.mem_cons_self, here, waits,
              { entry with lastPubKeyRequest := now } :: rest, ?_, List.mem_cons_self⟩)
            rw [requestAgain_cons, if_pos here, if_pos waits]
      · rw [requestAgain_cons, if_neg here]
        rcases ih with ⟨others, result⟩ | ⟨found, member, stands, known, result⟩ |
          ⟨found, member, stands, waits, entries', result, noted⟩
        · refine .inl ⟨?_, by rw [result]; rfl⟩
          intro other member
          rcases List.mem_cons.mp member with rfl | later
          · exact here
          · exact others other later
        · exact .inr (.inl ⟨found, List.mem_cons_of_mem _ member, stands, known, by
            rw [result]; rfl⟩)
        · exact .inr (.inr ⟨found, List.mem_cons_of_mem _ member, stands, waits,
            entry :: entries', by rw [result]; rfl, List.mem_cons_of_mem _ noted⟩)

/-! ## What `addAddr` does to the entries with the same string -/

/-- An entry that is not waiting is never replaced. -/
theorem mem_mergeAddr_of_known {address entry : PubAddr} {entries : List PubAddr}
    (member : entry ∈ entries) (known : entry.waitingPubKey = false) :
    entry ∈ mergeAddr address entries := by
  induction entries with
  | nil => cases member
  | cons head rest ih =>
      rw [mergeAddr]
      rcases List.mem_cons.mp member with rfl | later
      · simp only [known, Bool.and_false, Bool.false_eq_true, if_false]
        split
        · exact List.mem_cons_self
        · exact List.mem_cons_self
      · split
        · exact List.mem_cons_of_mem _ later
        · exact List.mem_cons_of_mem _ (ih later)

/-- The address takes the place of the first entry with its string, or goes to the end. -/
theorem mem_mergeAddr_self {address : PubAddr} {entries : List PubAddr}
    (room : ∀ entry, entries.find? (·.same address) = some entry →
      address.waitingPubKey = false ∧ entry.waitingPubKey = true) :
    address ∈ mergeAddr address entries := by
  induction entries with
  | nil => exact List.mem_singleton_self _
  | cons head rest ih =>
      rw [mergeAddr]
      by_cases same : head.same address = true
      · obtain ⟨known, waits⟩ := room head (by simp [same])
        simp [same, known, waits]
      · rw [if_neg same]
        refine List.mem_cons_of_mem _ (ih fun entry found => room entry ?_)
        simpa [same] using found

/-- Otherwise the book stays as it is. -/
theorem mergeAddr_eq_self {address entry : PubAddr} {entries : List PubAddr}
    (found : entries.find? (·.same address) = some entry)
    (full : ¬(address.waitingPubKey = false ∧ entry.waitingPubKey = true)) :
    mergeAddr address entries = entries := by
  induction entries with
  | nil => cases found
  | cons head rest ih =>
      rw [mergeAddr]
      by_cases same : head.same address = true
      · have first : head = entry := by simpa [same] using found
        subst first
        have stays : (!address.waitingPubKey && head.waitingPubKey) = false := by
          cases known : address.waitingPubKey with
          | true => rfl
          | false =>
              simp only [known, true_and, Bool.not_eq_true] at full
              rw [full]
              rfl
        rw [if_pos same, stays, if_neg Bool.false_ne_true]
      · rw [if_neg same, ih (by simpa [same] using found)]

/-- Whether some entry of the merged book has a property that the address shares with
its own entry only. -/
theorem exists_mem_mergeAddr_known {address : PubAddr} {entries : List PubAddr}
    {property : PubAddr → Prop} (own : property address) :
    (∃ entry ∈ mergeAddr address entries, property entry ∧ entry.waitingPubKey = false) ↔
      (∃ entry ∈ entries, property entry ∧ entry.waitingPubKey = false) ∨
      (address.waitingPubKey = false ∧ ∀ entry, entries.find? (·.same address) = some entry →
        entry.waitingPubKey = true) := by
  constructor
  · rintro ⟨entry, member, has, known⟩
    cases found : entries.find? (·.same address) with
    | none =>
        rcases mem_mergeAddr member with rfl | old
        · exact .inr ⟨known, fun _ impossible => by cases impossible⟩
        · exact .inl ⟨entry, old, has, known⟩
    | some first =>
        by_cases room : address.waitingPubKey = false ∧ first.waitingPubKey = true
        · refine .inr ⟨room.1, ?_⟩
          rintro other equal
          cases equal
          exact room.2
        · rw [mergeAddr_eq_self found room] at member
          exact .inl ⟨entry, member, has, known⟩
  · rintro (⟨entry, member, has, known⟩ | ⟨known, room⟩)
    · exact ⟨entry, mem_mergeAddr_of_known member known, has, known⟩
    · exact ⟨address, mem_mergeAddr_self fun entry found => ⟨known, room entry found⟩, own, known⟩

/-- The same for an address that waits itself: it only comes in under a new string. -/
theorem exists_mem_mergeAddr_waiting {address : PubAddr} {entries : List PubAddr}
    {property : PubAddr → Prop} (own : property address)
    (waits : address.waitingPubKey = true) :
    (∃ entry ∈ mergeAddr address entries, property entry) ↔
      (∃ entry ∈ entries, property entry) ∨
      ∀ entry ∈ entries, entry.address ≠ address.address := by
  cases found : entries.find? (·.same address) with
  | none =>
      have new : ∀ entry ∈ entries, entry.address ≠ address.address := by
        intro entry member
        simpa [PubAddr.same] using List.find?_eq_none.mp found entry member
      have entered := @mem_mergeAddr_self address entries (by
        rw [found]
        rintro _ ⟨⟩)
      exact ⟨fun _ => .inr new, fun _ => ⟨address, entered, own⟩⟩
  | some first =>
      have full : ¬(address.waitingPubKey = false ∧ first.waitingPubKey = true) := by
        simp [waits]
      rw [mergeAddr_eq_self found full]
      constructor
      · exact .inl
      · rintro (old | new)
        · exact old
        · have same : first.address = address.address := by
            simpa [PubAddr.same] using List.find?_some found
          exact absurd same (new first (List.mem_of_find?_eq_some found))

/-! ## The shared pubkey objects -/

/-- The first shared pubkey object with a tag. -/
def firstPubkey {platform : Platform} (draws : Draws platform) (tag : UString) :
    List (LinkedNode UString) → Except Exn (Option PacketPubkey)
  | [] => .ok none
  | cur :: rest => do
      let obj ← Object.decodeData { draws.object with messagePayload := cur.info }.toPacket
      if obj.objectType = typePubkey then
        let pubkey ← PacketPubkey.ofObject obj
        if pubkey.tag = tag then
          return some pubkey
        else
          firstPubkey draws tag rest
      else
        firstPubkey draws tag rest

variable {draws : Draws platform} {self after : Node} {address : PubAddr}

/-- A tagged pubkey object in front of the others. -/
theorem firstPubkey_head {tag encrypted : UString} {obj : Object}
    (objectType : obj.objectType = typePubkey) (version : obj.version = 4)
    (payload : obj.objectPayload = tag ++ encrypted) (tag32 : tag.length = 32)
    {cur : LinkedNode UString} (info : cur.info = obj.encodePayload.messagePayload)
    (rest : List (LinkedNode UString)) :
    ∃ pubkey, firstPubkey draws tag (cur :: rest) = .ok (some pubkey) ∧
      pubkey.encrypted = encrypted := by
  have frame : ({ draws.object with messagePayload := cur.info } : Object).toPacket.messagePayload =
      obj.encodePayload.messagePayload := info
  obtain ⟨received, decoded, sameType, sameVersion, samePayload⟩ : ∃ received : Object,
      Object.decodeData ({ draws.object with messagePayload := cur.info } : Object).toPacket =
        .ok received ∧
      received.objectType = obj.objectType ∧ received.version = obj.version ∧
      received.objectPayload = obj.objectPayload :=
    ⟨_, Object.decodeData_encodePayload frame, rfl, rfl, rfl⟩
  have tagged := readTagged_append encrypted tag32
  rw [← payload, ← samePayload] at tagged
  have typed := PacketPubkey.ofObject_tagged (sameVersion.trans version) tagged
  refine ⟨{ received.copy with tag, encrypted }, ?_, rfl⟩
  rw [firstPubkey]
  simp only [decoded, bind, Except.bind, if_pos (sameType.trans objectType), typed, if_true]
  rfl

/-- `getPubKey` decodes the first pubkey object with the tag, and no other. -/
theorem searchShared_eq_ok {nodes : List (LinkedNode UString)} {search : Option PubAddr} :
    searchShared draws address nodes = .ok search ↔
      (firstPubkey draws address.tag nodes = .ok none ∧ search = none) ∨
      ∃ pubkey loaded found, firstPubkey draws address.tag nodes = .ok (some pubkey) ∧
        address.decodeFromObj platform pubkey = .ok (loaded, found) ∧ search = some found := by
  induction nodes with
  | nil =>
      simp only [searchShared, firstPubkey, Except.ok.injEq, true_and, reduceCtorEq, false_and,
        exists_false, or_false]
      exact eq_comm
  | cons cur rest ih =>
      rw [searchShared, firstPubkey]
      cases Object.decodeData { draws.object with messagePayload := cur.info }.toPacket with
      | error failure => simp [bind, Except.bind]
      | ok obj =>
          simp only [bind, Except.bind]
          split
          next =>
            cases PacketPubkey.ofObject obj with
            | error failure => simp
            | ok pubkey =>
                simp only
                split
                next =>
                  cases decoded : address.decodeFromObj platform pubkey with
                  | error failure => simp [pure, Except.pure, decoded]
                  | ok result =>
                      rcases result with ⟨loaded, found⟩
                      cases loaded with
                      | false => simp [pure, Except.pure, decoded, eq_comm]
                      | true => simp [pure, Except.pure, decoded, eq_comm]
                next => exact ih
          next => exact ih

theorem getPubKey_of_searched {found : PubAddr} {entries : List PubAddr}
    (walk : requestAgain draws.now address self.pubAddresses = some (false, entries))
    (searched : searchShared draws address self.sharedObj.toList = .ok (some found)) :
    self.getPubKey draws address = .ok (self.addAddr found) := by
  unfold getPubKey
  rw [walk]
  exact bind_eq_ok.mpr ⟨_, searched, rfl⟩

theorem decodeFromObj_tag {found : PubAddr} {pubkey : PacketPubkey} {loaded : Bool}
    (result : address.decodeFromObj platform pubkey = .ok (loaded, found)) :
    found.tag = address.tag := by
  rcases PubAddr.decodeFromObj_cases result with ⟨_, same⟩ |
    ⟨_, _, _, _, _, _, _, _, _, _, _, _, same⟩
  · rw [same]
  · rw [same]
    unfold PubAddr.loadKeys
    cases PubAddr.storedKey _ with
    | none => rfl
    | some _ => cases PubAddr.storedKey _ <;> rfl

/-- How a call ends, by what it finds: a known entry, a waiting one, a shared pubkey
object with the tag, or nothing. -/
theorem getPubKey_outcomes (result : self.getPubKey draws address = .ok after) :
    (∃ entry ∈ self.pubAddresses, entry.StandsFor address ∧ entry.waitingPubKey = false ∧
      after = self) ∨
    (∃ entry ∈ self.pubAddresses, entry.StandsFor address ∧ entry.waitingPubKey = true ∧
      ∃ entries, requestAgain draws.now address self.pubAddresses = some (true, entries) ∧
        { entry with lastPubKeyRequest := draws.now } ∈ entries ∧
        after = { self with pubAddresses := entries }.sendObj
          (getpubkeyObject draws address).toObject) ∨
    ((∀ entry ∈ self.pubAddresses, ¬entry.StandsFor address) ∧
      ∃ pubkey loaded found,
        firstPubkey draws address.tag self.sharedObj.toList = .ok (some pubkey) ∧
        address.decodeFromObj platform pubkey = .ok (loaded, found) ∧
        after = self.addAddr found) ∨
    ((∀ entry ∈ self.pubAddresses, ¬entry.StandsFor address) ∧
      firstPubkey draws address.tag self.sharedObj.toList = .ok none ∧
      after = (self.addAddr { address with lastPubKeyRequest := draws.now }).sendObj
        (getpubkeyObject draws address).toObject) := by
  rcases requestAgain_cases draws.now address self.pubAddresses with ⟨others, walk⟩ |
    ⟨entry, member, stands, known, walk⟩ | ⟨entry, member, stands, waits, entries, walk, noted⟩
  · rcases getPubKey_cases result with ⟨other, _⟩ | ⟨_, other, _⟩ | ⟨_, search, _, searched, ended⟩
    · cases walk.symm.trans other
    · cases walk.symm.trans other
    rcases searchShared_eq_ok.mp searched with ⟨first, rfl⟩ |
      ⟨pubkey, loaded, found, first, decoded, rfl⟩
    · rcases ended with ⟨_, ⟨⟩, _⟩ | ⟨_, asked⟩
      exact .inr (.inr (.inr ⟨others, first, asked⟩))
    · rcases ended with ⟨_, ⟨⟩, learned⟩ | ⟨⟨⟩, _⟩
      exact .inr (.inr (.inl ⟨others, pubkey, loaded, found, first, decoded, learned⟩))
  · rcases getPubKey_cases result with ⟨_, same⟩ | ⟨_, other, _⟩ | ⟨_, _, other, _⟩
    · exact .inl ⟨entry, member, stands, known, same⟩
    · cases walk.symm.trans other
    · cases walk.symm.trans other
  · rcases getPubKey_cases result with ⟨other, _⟩ | ⟨_, again, asked⟩ | ⟨_, _, other, _⟩
    · cases walk.symm.trans other
    · cases walk.symm.trans again
      exact .inr (.inl ⟨entry, member, stands, waits, entries, walk, noted, asked⟩)
    · cases walk.symm.trans other

/-! ## Whether a call leaves the keys or a request for them -/

/-- The call left an entry with the tag that has its keys, or asked for them. -/
def Requested (self : Node) (address : PubAddr) (after : Node) : Prop :=
  ∃ entry ∈ after.pubAddresses, entry.tag = address.tag ∧
    (entry.waitingPubKey = false ∨ ∃ pushed, after.objects = self.objects ++ pushed ∧
      ∃ obj ∈ pushed, obj.objectType = typeGetpubkey ∧ obj.objectPayload = address.tag)

/-- What an address finds in the node: an entry that `getPubKey` recognises, or keys in
the first pubkey object with its tag, or room for an entry of its own. -/
def Reaches (draws : Draws platform) (self : Node) (address : PubAddr) : Prop :=
  (∃ entry ∈ self.pubAddresses, entry.tag = address.tag ∧
    (entry.version = address.version ∨ entry.waitingPubKey = false)) ∨
  (firstPubkey draws address.tag self.sharedObj.toList = .ok none ∧
    ((∃ entry ∈ self.pubAddresses, entry.tag = address.tag) ∨
      ∀ entry ∈ self.pubAddresses, entry.address ≠ address.address)) ∨
  ∃ pubkey loaded found,
    firstPubkey draws address.tag self.sharedObj.toList = .ok (some pubkey) ∧
    address.decodeFromObj platform pubkey = .ok (loaded, found) ∧
    found.waitingPubKey = false ∧
    ∀ entry, self.pubAddresses.find? (·.same address) = some entry → entry.waitingPubKey = true

/-- The request that is pushed. -/
theorem queued_getpubkeyObject (address : PubAddr) :
    (queued (getpubkeyObject draws address).toObject).objectType = typeGetpubkey ∧
      (queued (getpubkeyObject draws address).toObject).objectPayload = address.tag := ⟨rfl, rfl⟩

/-- A call that pushes nothing leaves a known entry. -/
theorem requested_of_same_objects (objects : after.objects = self.objects) :
    Requested self address after ↔
      ∃ entry ∈ after.pubAddresses, entry.tag = address.tag ∧ entry.waitingPubKey = false := by
  constructor
  · rintro ⟨entry, member, tag, known | ⟨pushed, equal, obj, inside, _⟩⟩
    · exact ⟨entry, member, tag, known⟩
    · have none : pushed = [] := by
        rw [objects] at equal
        exact List.self_eq_append_right.mp equal
      rw [none] at inside
      cases inside
  · rintro ⟨entry, member, tag, known⟩
    exact ⟨entry, member, tag, .inl known⟩

/-- A call that pushes the request leaves an entry. -/
theorem requested_of_request
    (objects : after.objects = self.objects ++ [queued (getpubkeyObject draws address).toObject]) :
    Requested self address after ↔ ∃ entry ∈ after.pubAddresses, entry.tag = address.tag := by
  obtain ⟨objectType, objectPayload⟩ := @queued_getpubkeyObject platform draws address
  constructor
  · rintro ⟨entry, member, tag, _⟩
    exact ⟨entry, member, tag⟩
  · rintro ⟨entry, member, tag⟩
    exact ⟨entry, member, tag, .inr ⟨_, objects, _, List.mem_singleton_self _, objectType,
      objectPayload⟩⟩

/-- `addAddr` of an address that has a string. -/
theorem addAddr_pubAddresses (named : address.address ≠ []) :
    (self.addAddr address).pubAddresses = mergeAddr address self.pubAddresses := by
  simp only [addAddr, if_neg named]

/-- The empty string is no address. -/
theorem loadAddr_named {earlier : PubAddr} {string : UString}
    (given : earlier.loadAddr platform string = .ok (true, address)) :
    address.address ≠ [] ∧ address.waitingPubKey = true := by
  obtain ⟨body, decoded, fields⟩ := PubAddr.loadAddr_eq_true.mp given
  have addressEq := PubAddr.loadBody_address platform earlier string body
  have waits : address.empty = true :=
    congrArg (fun pair => pair.2.empty) (fields.symm.trans (PubAddr.loadBody_agree fields earlier))
  rw [fields] at addressEq
  refine ⟨?_, waits⟩
  rw [addressEq]
  rintro rfl
  have fails : PubAddr.decodeAddress platform [] = .error .outOfRange := rfl
  rw [fails] at decoded
  cases decoded

/-- When a call of `getPubKey` leaves the keys or a request for them.  A stored pubkey
object with the tag whose signature does not hold, which anybody can publish, is enough
to prevent both. -/
theorem getPubKey_requested_iff {earlier : PubAddr} {string : UString}
    (given : earlier.loadAddr platform string = .ok (true, address))
    (tagged : 4 ≤ address.version) (result : self.getPubKey draws address = .ok after) :
    Requested self address after ↔ Reaches draws self address := by
  obtain ⟨named, waiting⟩ := loadAddr_named given
  rcases getPubKey_outcomes result with ⟨entry, member, stands, known, rfl⟩ |
    ⟨entry, member, stands, _, entries, _, noted, rfl⟩ |
    ⟨others, pubkey, loaded, found, first, decoded, rfl⟩ | ⟨_, first, rfl⟩
  · obtain ⟨version, tag⟩ := (PubAddr.standsFor_tag tagged).mp stands
    exact ⟨fun _ => .inl ⟨entry, member, tag, .inl version⟩,
      fun _ => ⟨entry, member, tag, .inl known⟩⟩
  · obtain ⟨version, tag⟩ := (PubAddr.standsFor_tag tagged).mp stands
    rw [@requested_of_request platform draws self _ address rfl]
    exact ⟨fun _ => .inl ⟨entry, member, tag, .inl version⟩, fun _ => ⟨_, noted, tag⟩⟩
  · have tag := decodeFromObj_tag decoded
    have string := PubAddr.decodeFromObj_address decoded
    have same : (fun entry : PubAddr => entry.same found) = fun entry => entry.same address := by
      funext entry
      simp only [PubAddr.same, string]
    have same_objects : (self.addAddr found).objects = self.objects := rfl
    rw [requested_of_same_objects same_objects,
      addAddr_pubAddresses (by rw [string]; exact named),
      @exists_mem_mergeAddr_known found _ (fun entry => entry.tag = address.tag) tag, same]
    constructor
    · rintro (⟨entry, member, tag, known⟩ | ⟨known, room⟩)
      · exact .inl ⟨entry, member, tag, .inr known⟩
      · exact .inr (.inr ⟨pubkey, loaded, found, first, decoded, known, room⟩)
    · rintro (⟨entry, member, tag, version | known⟩ | ⟨other, _⟩ |
        ⟨pubkey', loaded', found', first', decoded', known, room⟩)
      · exact absurd ((PubAddr.standsFor_tag tagged).mpr ⟨version, tag⟩) (others entry member)
      · exact .inl ⟨entry, member, tag, known⟩
      · cases first.symm.trans other
      · cases first.symm.trans first'
        cases decoded.symm.trans decoded'
        exact .inr ⟨known, room⟩
  · have left := @exists_mem_mergeAddr_waiting { address with lastPubKeyRequest := draws.now }
      self.pubAddresses (fun entry => entry.tag = address.tag) rfl waiting
    rw [← @addAddr_pubAddresses self { address with lastPubKeyRequest := draws.now } named] at left
    refine (@requested_of_request platform draws self _ address rfl).trans (left.trans ?_)
    constructor
    · exact fun room => .inr (.inl ⟨first, room⟩)
    · rintro (⟨entry, member, tag, _⟩ | ⟨_, room⟩ | ⟨_, _, _, other, _⟩)
      · exact .inl ⟨entry, member, tag⟩
      · exact room
      · cases first.symm.trans other

/-- A pubkey object with the tag of the first sample address and nothing behind it. -/
def forgedObject : Object := {
  Draws.sample.object with
  objectType := typePubkey
  objectPayload := (Addr.sampleEntry 1).tag ++ []
  version := 4
  stream := 1 }

/-- A node that shares this object. -/
def sampleDeceived : Node :=
  (Node.new.share Platform.sample [] forgedObject.encodePayload.messagePayload).2

theorem sampleEntry_tagged :
    (Addr.sampleEntry 1).tag.length = 32 ∧ 4 ≤ (Addr.sampleEntry 1).version := by
  obtain ⟨body, _, fields⟩ := PubAddr.loadAddr_eq_true.mp (Addr.sampleEntry_loads 1)
  have version : (Addr.sampleEntry 1).version = 4 := (Addr.sample_spec 1).2.2.2.2.1
  rw [version]
  exact ⟨(PubAddr.loadBody_tags fields).2.1, by decide⟩

/-- Nothing can be decrypted from it. -/
theorem firstPubkey_deceived : ∃ pubkey,
    firstPubkey Draws.sample (Addr.sampleEntry 1).tag sampleDeceived.sharedObj.toList =
      .ok (some pubkey) ∧
    (Addr.sampleEntry 1).decodeFromObj Platform.sample pubkey =
      .ok (false, Addr.sampleEntry 1) := by
  have listed : sampleDeceived.sharedObj.toList =
      [⟨_, forgedObject.encodePayload.messagePayload⟩] := HashTable.toList_insert_empty _ _ _
  obtain ⟨pubkey, first, encrypted⟩ := @firstPubkey_head Platform.sample Draws.sample _ []
    forgedObject rfl rfl rfl sampleEntry_tagged.1 ⟨_, _⟩ rfl []
  obtain ⟨failure, failed⟩ : ∃ failure,
      decode Platform.sample [] (Addr.sampleEntry 1).tagE = .error failure := by
    generalize (Addr.sampleEntry 1).tagE = key
    exact ⟨_, rfl⟩
  refine ⟨pubkey, by rw [listed]; exact first, ?_⟩
  simp only [PubAddr.decodeFromObj, encrypted, failed]

/-- The object hides the missing keys: the address is entered, and nobody is asked. -/
theorem getPubKey_deceived :
    sampleDeceived.getPubKey Draws.sample (Addr.sampleEntry 1) =
      .ok (sampleDeceived.addAddr (Addr.sampleEntry 1)) := by
  obtain ⟨pubkey, first, decoded⟩ := firstPubkey_deceived
  have searched := searchShared_eq_ok.mpr (.inr ⟨pubkey, _, _, first, decoded, rfl⟩)
  exact getPubKey_of_searched (show requestAgain _ _ [] = some (false, []) from rfl) searched

theorem request_missing_sample :
    (PubAddr.new ⟨0, 0, 0, 0⟩).loadAddr Platform.sample (Addr.sample 1).base.address =
      .ok (true, Addr.sampleEntry 1) ∧ 4 ≤ (Addr.sampleEntry 1).version ∧
    sampleDeceived.getPubKey Draws.sample (Addr.sampleEntry 1) =
      .ok (sampleDeceived.addAddr (Addr.sampleEntry 1)) ∧
    ¬Requested sampleDeceived (Addr.sampleEntry 1)
      (sampleDeceived.addAddr (Addr.sampleEntry 1)) := by
  refine ⟨Addr.sampleEntry_loads 1, sampleEntry_tagged.2, getPubKey_deceived, ?_⟩
  have named := (loadAddr_named (Addr.sampleEntry_loads 1)).1
  have same_objects : (sampleDeceived.addAddr (Addr.sampleEntry 1)).objects =
      sampleDeceived.objects := rfl
  rw [requested_of_same_objects same_objects, addAddr_pubAddresses named]
  rintro ⟨entry, member, _, known⟩
  rw [List.mem_singleton.mp member] at known
  cases known

theorem getPubKey_requested_iff_sample :
    Requested sampleDeceived (Addr.sampleEntry 1)
        (sampleDeceived.addAddr (Addr.sampleEntry 1)) ↔
      Reaches Draws.sample sampleDeceived (Addr.sampleEntry 1) :=
  getPubKey_requested_iff (Addr.sampleEntry_loads 1) sampleEntry_tagged.2 getPubKey_deceived

/-! ## Whether a call leaves a target for `sendMessage` -/

/-- An entry has the string of the address, or none stands for it. -/
def Targeted (self : Node) (address : PubAddr) : Prop :=
  (∃ entry ∈ self.pubAddresses, entry.address = address.address) ∨
    ∀ entry ∈ self.pubAddresses, ¬entry.StandsFor address

theorem addAddr_string (named : address.address ≠ []) :
    ∃ entry ∈ (self.addAddr address).pubAddresses, entry.address = address.address := by
  rw [addAddr_pubAddresses named]
  apply List.mem_map.mp
  rw [mergeAddr_addresses]
  split
  next old => exact old
  next => exact List.mem_append_right _ (List.mem_singleton_self _)

theorem getPubKey_target_iff {earlier : PubAddr} {string : UString}
    (given : earlier.loadAddr platform string = .ok (true, address))
    (result : self.getPubKey draws address = .ok after) :
    (∃ entry ∈ after.pubAddresses, entry.address = address.address) ↔
      self.Targeted address := by
  obtain ⟨named, _⟩ := loadAddr_named given
  rcases getPubKey_outcomes result with ⟨entry, member, stands, _, rfl⟩ |
    ⟨entry, member, stands, _, entries, again, _, rfl⟩ |
    ⟨others, _, _, found, _, decoded, rfl⟩ | ⟨others, _, rfl⟩
  · constructor
    · exact .inl
    · rintro (same | others)
      · exact same
      · exact absurd stands (others entry member)
  · have updated : List.Forall₂ (PubAddr.Updated platform) self.pubAddresses entries :=
      requestAgain_updated again
    have strings := map_eq_of_forall₂ updated fun _ _ changed => changed.kept.address
    have listed : (∃ entry ∈ entries, entry.address = address.address) ↔
        ∃ entry ∈ self.pubAddresses, entry.address = address.address := by
      rw [← List.mem_map, strings, List.mem_map]
    constructor
    · exact fun found => .inl (listed.mp found)
    · rintro (same | others)
      · exact listed.mpr same
      · exact absurd stands (others entry member)
  · refine ⟨fun _ => .inr others, fun _ => ?_⟩
    have string := PubAddr.decodeFromObj_address decoded
    rw [← string] at named ⊢
    exact addAddr_string named
  · refine ⟨fun _ => .inr others, fun _ => ?_⟩
    exact @addAddr_string self { address with lastPubKeyRequest := draws.now } named

/-- The exit of `sendMessage` without a target. -/
theorem sendMessage_dropped_iff (waits : address.waitingPubKey = true)
    (result : self.getPubKey draws address = .ok after) (message : UString) (fromAddr : Addr) :
    self.sendMessage draws message address fromAddr = .ok (.dropped after) ↔
      ¬∃ entry ∈ after.pubAddresses, entry.same address = true := by
  rw [sendMessage, if_pos waits]
  simp only [result, bind, Except.bind]
  cases target : after.pubAddresses.find? (·.same address) with
  | none =>
      have absent := List.find?_eq_none.mp target
      refine ⟨fun _ => ?_, fun _ => rfl⟩
      rintro ⟨entry, member, same⟩
      exact absent entry member same
  | some entry =>
      have same := @List.find?_some _ (fun other : PubAddr => other.same address) _ _ target
      have present : ∃ entry ∈ after.pubAddresses, entry.same address = true :=
        ⟨entry, List.mem_of_find?_eq_some target, same⟩
      refine ⟨fun outcome => ?_, fun absent => absurd present absent⟩
      simp only at outcome
      split at outcome
      next => cases outcome
      next =>
        cases sent : after.sendMessageKnown draws message entry fromAddr with
        | error failure => simp [sent] at outcome
        | ok sender =>
            simp only [sent] at outcome
            cases outcome

/-- When `sendMessage` finds its target: it gives the message up when an entry stands for
the address under another string. -/
theorem sendMessage_target_iff {earlier : PubAddr} {string : UString}
    (given : earlier.loadAddr platform string = .ok (true, address))
    (result : self.getPubKey draws address = .ok after) (message : UString) (fromAddr : Addr) :
    ((∃ entry ∈ after.pubAddresses, entry.same address = true) ↔ self.Targeted address) ∧
    (self.sendMessage draws message address fromAddr = .ok (.dropped after) ↔
      ¬self.Targeted address) := by
  have found : (∃ entry ∈ after.pubAddresses, entry.same address = true) ↔
      self.Targeted address := by
    rw [← getPubKey_target_iff given result]
    simp only [PubAddr.same, decide_eq_true_eq]
  refine ⟨found, ?_⟩
  rw [← found]
  exact sendMessage_dropped_iff (loadAddr_named given).2 result message fromAddr

/-- A new node that was asked for the keys of the first sample address. -/
def sampleRequester : Node :=
  (Node.new.addAddr { Addr.sampleEntry 1 with lastPubKeyRequest := 0 }).sendObj
    (getpubkeyObject Draws.sample (Addr.sampleEntry 1)).toObject

theorem sampleRequester_reachable :
    System.Reachable Platform.sample (System.idle sampleRequester) := by
  have asked : Node.new.getPubKey Draws.sample (Addr.sampleEntry 1) = .ok sampleRequester := by
    have searched : searchShared Draws.sample (Addr.sampleEntry 1) Node.new.sharedObj.toList =
        .ok none := by
      have none : Node.new.sharedObj.toList = [] := by
        simp [Node.new, HashTable.toList, HashTable.empty]
      rw [none]
      rfl
    unfold getPubKey
    rw [show requestAgain Draws.sample.now (Addr.sampleEntry 1) Node.new.pubAddresses =
      some (false, []) from rfl]
    exact bind_eq_ok.mpr ⟨_, searched, rfl⟩
  have short : (Addr.sample 1).base.address.length < intLimit :=
    Nat.lt_of_le_of_lt (buildAddress_length (Addr.sample_loaded 1).consistent.built) (by decide)
  exact .step .start (.operation (.getPubKey short (.inl (Addr.sampleEntry_loads 1)) asked))

theorem sampleRequester_pubAddresses : sampleRequester.pubAddresses =
    [{ Addr.sampleEntry 1 with lastPubKeyRequest := 0 }] :=
  @addAddr_pubAddresses Node.new { Addr.sampleEntry 1 with lastPubKeyRequest := 0 }
    (loadAddr_named (Addr.sampleEntry_loads 1)).1

/-- The first sample address under another string. -/
def sampleAlias (text : UString) : PubAddr := { Addr.sampleEntry 1 with address := text }

/-- That address is loaded from its string without `BM-`. -/
theorem sampleAlias_asked : ∃ text after,
    (PubAddr.new ⟨0, 0, 0, 0⟩).loadAddr Platform.sample text = .ok (true, sampleAlias text) ∧
    sampleRequester.getPubKey Draws.sample (sampleAlias text) = .ok after ∧
    ¬sampleRequester.Targeted (sampleAlias text) := by
  obtain ⟨text, string, bare⟩ :=
    PubAddr.loadAddr_without_prefix (Addr.sample_loaded 1).consistent.built
  have stands : ({ Addr.sampleEntry 1 with lastPubKeyRequest := 0 } : PubAddr).StandsFor
      (sampleAlias text) := (PubAddr.standsFor_tag sampleEntry_tagged.2).mpr ⟨rfl, rfl⟩
  obtain ⟨after, asked⟩ : ∃ after,
      sampleRequester.getPubKey Draws.sample (sampleAlias text) = .ok after := by
    unfold getPubKey
    rw [sampleRequester_pubAddresses, requestAgain_cons, if_pos stands]
    exact ⟨_, rfl⟩
  refine ⟨text, after, bare _ _ (Addr.sampleEntry_loads 1), asked, ?_⟩
  rintro (⟨entry, member, same⟩ | others)
  · rw [sampleRequester_pubAddresses, List.mem_singleton] at member
    rw [member] at same
    have lengths := congrArg List.length (string.symm.trans same)
    simp only [addressPrefix, sampleAlias, List.length_append, List.length_cons,
      List.length_nil] at lengths
    omega
  · refine others _ ?_ stands
    rw [sampleRequester_pubAddresses]
    exact List.mem_singleton_self _

/-- A reachable node gives up a message to an address that it knows under another string. -/
theorem target_missing_sample : ∃ text after,
    System.Reachable Platform.sample (System.idle sampleRequester) ∧
    (PubAddr.new ⟨0, 0, 0, 0⟩).loadAddr Platform.sample text = .ok (true, sampleAlias text) ∧
    sampleRequester.getPubKey Draws.sample (sampleAlias text) = .ok after ∧
    (¬∃ entry ∈ after.pubAddresses, entry.same (sampleAlias text) = true) ∧
    sampleRequester.sendMessage Draws.sample [104, 105] (sampleAlias text) (Addr.sample 1) =
      .ok (.dropped after) := by
  obtain ⟨text, after, given, asked, missing⟩ := sampleAlias_asked
  have absent : ¬∃ entry ∈ after.pubAddresses, entry.same (sampleAlias text) = true := by
    simp only [PubAddr.same, decide_eq_true_eq]
    rwa [getPubKey_target_iff given asked]
  exact ⟨text, after, sampleRequester_reachable, given, asked, absent,
    (sendMessage_dropped_iff (loadAddr_named given).2 asked _ _).mpr absent⟩

theorem sendMessage_target_iff_sample : ∃ text after,
    ((∃ entry ∈ after.pubAddresses, entry.same (sampleAlias text) = true) ↔
      sampleRequester.Targeted (sampleAlias text)) ∧
    (sampleRequester.sendMessage Draws.sample [104, 105] (sampleAlias text) (Addr.sample 1) =
        .ok (.dropped after) ↔ ¬sampleRequester.Targeted (sampleAlias text)) := by
  obtain ⟨text, after, given, asked, _⟩ := sampleAlias_asked
  exact ⟨text, after, sendMessage_target_iff given asked [104, 105] (Addr.sample 1)⟩

end Node

end BitMRC

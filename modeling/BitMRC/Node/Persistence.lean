import BitMRC.Node.Invariant
import BitMRC.Utils.FileUString

/-!
# `save` and `load`

The own addresses and the address book are written to `keys.dat`, the shared
objects to another file.  `load` reads records until a read throws, so that a file
that was cut anywhere still gives all records in front of the cut.
-/

namespace BitMRC

open Foundation

variable {platform : Platform}

/-! ## `save` -/

/-- The record of an own address, behind what the file holds. -/
def writeOwn (file : UString) (own : Addr) : UString :=
  -- 0 for private key
  let file := FileUString.writeByte file 0
  let file := FileUString.writeVarUstringB file own.base.address
  let file := FileUString.writeVarUstringB file own.privEncryptionKey
  let file := FileUString.writeVarUstringB file own.privSigningKey
  FileUString.writeInt64 file own.base.lastPubKeyRequest

/-- The record of an address book entry. -/
def writeEntry (file : UString) (entry : PubAddr) : UString :=
  -- 1 for public key
  let file := FileUString.writeByte file 1
  -- false if have keys
  let file := FileUString.writeByte file (if entry.waitingPubKey then 1 else 0)
  let file := FileUString.writeVarUstringB file entry.address
  if entry.waitingPubKey then
    file
  else
    let file := FileUString.writeVarUstringB file entry.pubEncryptionKey
    let file := FileUString.writeVarUstringB file entry.pubSigningKey
    let file := FileUString.writeVarIntB file (varInt entry.nonceTrials)
    FileUString.writeVarIntB file (varInt entry.extraBytes)

/-- The record of a shared object; corrupted ones are left out. -/
def writeObject (file : UString) (cur : LinkedNode UString) : UString :=
  if cur.hash.length ≠ 32 ∨ cur.info.length = 0 then
    file
  else
    FileUString.writeVarUstringB (FileUString.writeUstring file cur.hash) cur.info

namespace Node

/-- `keys.dat` as `save` writes it. -/
def saveKeys (self : Node) : UString :=
  self.pubAddresses.foldl writeEntry (self.privAddresses.foldl writeOwn [])

/-- The object file as `save` writes it. -/
def saveObjects (self : Node) : UString := self.sharedObj.toList.foldl writeObject []

end Node

/-! ## `load` -/

/-- What one round of the first loop of `load` adds. -/
inductive KeyRecord where
  | own (address : Addr)
  | entry (address : PubAddr)
  | nothing

instance : Inhabited KeyRecord := ⟨.nothing⟩

/-- An own address, from its string and its private keys. -/
def restoreOwn (platform : Platform) (uninit : Uninit) (address privE privS : UString)
    (lastPubKey : Int64) : Except Exn KeyRecord := do
  let (_, base) ← (PubAddr.new uninit).loadAddr platform address
  let (loaded, tmp) ← { Addr.new uninit with base }.loadKeys platform
    (getPubOfPriv platform privE) (getPubOfPriv platform privS) privE privS base.stream
    base.version
  if loaded then
    return .own (tmp.setLastPubKeyRequest lastPubKey)
  else
    return .nothing

/-- One round of the first loop of `load`. -/
def readKeyRecord (platform : Platform) (uninit : Uninit) : FileReader KeyRecord := do
  let type ← FileUString.getInt8
  if type = 0 then
    let address ← FileUString.getVarUstringB
    let privE ← FileUString.getVarUstringB
    let privS ← FileUString.getVarUstringB
    let lastPubKey ← FileUString.getInt64
    Cursor.lift (restoreOwn platform uninit address privE privS lastPubKey)
  else if type = 1 then
    let waiting ← FileUString.getInt8
    let address ← FileUString.getVarUstringB
    let (_, tmp) ← Cursor.lift ((PubAddr.new uninit).loadAddr platform address)
    if waiting = 0 then
      let pubE ← FileUString.getVarUstringB
      let pubS ← FileUString.getVarUstringB
      let nonce ← FileUString.getVarIntB
      let extra ← FileUString.getVarIntB
      return .entry (tmp.loadKeys pubS pubE nonce.toInt32 extra.toInt32).2
    else
      return .entry tmp
  else
    return .nothing

/-- One round of the second loop of `load`. -/
def readObjectRecord {platform : Platform} (draws : Draws platform) :
    FileReader (LinkedNode UString × Object) := do
  let hash ← FileUString.getUstring 32
  let info ← FileUString.getVarUstringB
  let obj ← Cursor.lift (Object.decodeData
    { draws.object with messagePayload := info }.toPacket)
  return (⟨hash, info⟩, obj)

namespace Node

/-- The end of the first loop. -/
def addRecord (self : Node) : KeyRecord → Node
  | .own address => self.addPrivAddr address
  | .entry address => self.addAddr address
  | .nothing => self

/-- The end of the second loop: only objects that are not over are kept. -/
def addObject {platform : Platform} (draws : Draws platform) (self : Node)
    (record : LinkedNode UString × Object) : Node :=
  if draws.now < record.2.time then
    { self with
      sharedObj := (self.sharedObj.insert draws.buffer record.1.info record.1.hash).2 }
  else
    self

/-- `catch (...)`. -/
def caught (failure : Exn) : Bool := failure ≠ .undefined

/-- The first loop, over `keys.dat`. -/
def loadKeysFile (platform : Platform) (uninit : Uninit) (self : Node) (kFile : UString) :
    Except Exn Node :=
  Cursor.drain caught (readKeyRecord platform uninit) addRecord (kFile.length + 1) self kFile 0

/-- The second loop, over the object file. -/
def loadObjectsFile {platform : Platform} (draws : Draws platform) (self : Node)
    (pFile : UString) : Except Exn Node :=
  Cursor.drain caught (readObjectRecord draws) (addObject draws) (pFile.length + 1) self pFile 0

/-- `load`; a file that cannot be opened is `none`. -/
def load {platform : Platform} (draws : Draws platform) (uninit : Uninit) (self : Node)
    (pFile kFile : Option UString) : Except Exn Node := do
  let self ← kFile.elim (.ok self) (self.loadKeysFile platform uninit)
  pFile.elim (.ok self) (self.loadObjectsFile draws)

end Node

/-! ## Records are read back -/

/-- What is kept of an own address. -/
structure SavedOwn where
  address : UString
  pubSigningKey : UString
  pubEncryptionKey : UString
  privSigningKey : UString
  privEncryptionKey : UString
  lastPubKeyRequest : Int64
  deriving DecidableEq

def Addr.saved (own : Addr) : SavedOwn where
  address := own.base.address
  pubSigningKey := own.pubSigningKey
  pubEncryptionKey := own.pubEncryptionKey
  privSigningKey := own.privSigningKey
  privEncryptionKey := own.privEncryptionKey
  lastPubKeyRequest := own.base.lastPubKeyRequest

/-- What is kept of keys, once they are known. -/
structure SavedKeys where
  pubSigningKey : UString
  pubEncryptionKey : UString
  nonceTrials : Int32
  extraBytes : Int32
  deriving DecidableEq

/-- What is kept of an address book entry: `none` while it waits for its keys. -/
structure SavedEntry where
  address : UString
  keys : Option SavedKeys
  deriving DecidableEq

def PubAddr.saved (entry : PubAddr) : SavedEntry where
  address := entry.address
  keys :=
    if entry.waitingPubKey then
      none
    else
      some ⟨entry.pubSigningKey, entry.pubEncryptionKey, entry.nonceTrials, entry.extraBytes⟩

open FileUString UString

theorem writeOwn_eq (file : UString) (own : Addr) :
    writeOwn file own = file ++ writeOwn [] own := by
  simp only [writeOwn, writeInt64_eq, writeVarUstringB_eq, writeByte, List.append_assoc,
    List.nil_append]

theorem writeEntry_eq (file : UString) (entry : PubAddr) :
    writeEntry file entry = file ++ writeEntry [] entry := by
  unfold writeEntry
  split
  · simp only [writeVarUstringB_eq, writeByte, List.append_assoc, List.nil_append]
  · simp only [writeVarIntB_eq, writeVarUstringB_eq, writeByte, List.append_assoc,
      List.nil_append]

theorem writeObject_eq (file : UString) (cur : LinkedNode UString) :
    writeObject file cur = file ++ writeObject [] cur := by
  unfold writeObject
  split
  · rw [List.append_nil]
  · simp only [writeVarUstringB_eq, writeUstring, List.append_assoc, List.nil_append]

/-- A generated address at full width is restored from its record. -/
theorem restoreOwn_saved {own : Addr} (loaded : own.Loaded platform)
    (keys : own.KeysMatch platform) (uninit : Uninit) :
    ∃ own', restoreOwn platform uninit own.base.address own.privEncryptionKey
        own.privSigningKey own.base.lastPubKeyRequest = .ok (.own own') ∧
      own'.saved = own.saved ∧ own'.Generated platform := by
  have consistent := loaded.consistent
  have long := loaded.longDigest
  rw [Addr.LongDigest, keys.pubSigning_eq, keys.pubEncryption_eq] at long
  obtain ⟨own', restored, keys', privE, privS, version, stream⟩ := Addr.exists_loadKeys
    {
      Addr.new uninit with
      base := {
        PubAddr.new uninit with
        address := own.base.address
        version := own.base.version
        stream := own.base.stream
        ripe := own.base.ripe
        tagE := own.base.tagE
        tag := own.base.tag
        empty := true } }
    own.base.stream own.base.version keys.privEncryption_length keys.privSigning_length
    keys.encryption_fullWidth keys.signing_fullWidth long
  have loaded' : own'.Loaded platform :=
    ⟨_, own', _, _, _, _, _, _, own'.base.lastPubKeyRequest, restored, rfl⟩
  -- the same keys, version and stream give the same address string
  have built := consistent.built
  have built' := loaded'.consistent.built
  rw [keys.pubSigning_eq, keys.pubEncryption_eq] at built
  rw [keys'.pubSigning_eq, keys'.pubEncryption_eq, privE, privS, version, stream, built] at built'
  have address := Except.ok.inj built'
  refine ⟨own'.setLastPubKeyRequest own.base.lastPubKeyRequest, ?_, ?_, ?_⟩
  · simp only [restoreOwn, consistent.loads (PubAddr.new uninit), bind, Except.bind, restored,
      if_true]
    rfl
  · simp only [Addr.saved, Addr.setLastPubKeyRequest, ← address, keys'.pubSigning_eq,
      keys'.pubEncryption_eq, privE, privS, keys.pubSigning_eq, keys.pubEncryption_eq]
  · exact ⟨_, own', _, _, _, _, _, _, true, _, .inl rfl, .inl rfl, by simp, restored, rfl⟩

/-- The record of an own address gives the address back. -/
theorem readKeyRecord_own {own : Addr} (loaded : own.Loaded platform)
    (keys : own.KeysMatch platform) (uninit : Uninit) :
    ∃ own', Reads (readKeyRecord platform uninit) (writeOwn [] own) (.own own') ∧
      own'.saved = own.saved ∧ own'.Generated platform := by
  obtain ⟨own', restored, saved, generated⟩ := restoreOwn_saved loaded keys uninit
  refine ⟨own', ?_, saved, generated⟩
  have written : writeOwn [] own = 0 :: (appendVarUstringB [] own.base.address ++
      (appendVarUstringB [] own.privEncryptionKey ++ (appendVarUstringB [] own.privSigningKey ++
        (appendInt64 [] own.base.lastPubKeyRequest ++ [])))) := by
    simp only [writeOwn, writeInt64_eq, writeVarUstringB_eq, writeByte, List.nil_append,
      List.append_assoc, List.append_nil, List.cons_append]
  have address : own.base.address.length < intLimit :=
    Nat.lt_of_le_of_lt (buildAddress_length loaded.consistent.built) (by decide)
  have privE : own.privEncryptionKey.length < intLimit := by
    rw [keys.privEncryption_length]
    decide
  have privS : own.privSigningKey.length < intLimit := by
    rw [keys.privSigning_length]
    decide
  rw [written]
  apply reads_cons
  rw [if_pos rfl]
  refine (getVarUstringB_reads address).bind ((getVarUstringB_reads privE).bind
    ((getVarUstringB_reads privS).bind ((getInt64_reads _).bind ?_)))
  rw [restored]
  exact reads_return rfl

/-- The record of an entry that waits for its keys gives the entry back. -/
theorem readKeyRecord_waiting {entry : PubAddr} (listed : entry.Listed platform)
    (waiting : entry.waitingPubKey = true) (uninit : Uninit) :
    ∃ entry', Reads (readKeyRecord platform uninit) (writeEntry [] entry) (.entry entry') ∧
      entry'.saved = entry.saved ∧ entry'.Listed platform := by
  obtain ⟨flag, tmp, loads, address, waits, listed'⟩ :=
    @PubAddr.Listed.reload platform entry (PubAddr.new uninit) listed rfl
  refine ⟨tmp, ?_, ?_, listed'⟩
  · have written : writeEntry [] entry = 1 :: 1 :: (appendVarUstringB [] entry.address ++ []) := by
      simp only [writeEntry, waiting, if_true, writeVarUstringB_eq, writeByte,
        List.nil_append, List.append_nil, List.cons_append]
    rw [written]
    apply reads_cons
    rw [if_neg (by decide), if_pos rfl]
    apply reads_cons
    refine (getVarUstringB_reads listed.short).bind ?_
    rw [loads]
    exact reads_return rfl
  · simp only [PubAddr.saved, waits, waiting, address, if_true]

/-- The record of an entry with known keys gives the entry back. -/
theorem readKeyRecord_known {entry : PubAddr} (listed : entry.Listed platform)
    (waiting : entry.waitingPubKey = false) (uninit : Uninit) :
    ∃ entry', Reads (readKeyRecord platform uninit) (writeEntry [] entry) (.entry entry') ∧
      entry'.saved = entry.saved ∧ entry'.Listed platform := by
  obtain ⟨flag, tmp, loads, address, _, listed'⟩ :=
    @PubAddr.Listed.reload platform entry (PubAddr.new uninit) listed rfl
  obtain ⟨signing, encryption⟩ := listed.keys waiting
  have shortS : entry.pubSigningKey.length < intLimit :=
    Nat.lt_of_le_of_lt (storedKey_length signing) (by decide)
  have shortE : entry.pubEncryptionKey.length < intLimit :=
    Nat.lt_of_le_of_lt (storedKey_length encryption) (by decide)
  refine ⟨(tmp.loadKeys entry.pubSigningKey entry.pubEncryptionKey
    (varInt entry.nonceTrials).toInt64.toInt32 (varInt entry.extraBytes).toInt64.toInt32).2,
    ?_, ?_, .loadKeys listed'.short listed'.decodes _ _ _ _⟩
  · have written : writeEntry [] entry = 1 :: 0 :: (appendVarUstringB [] entry.address ++
        (appendVarUstringB [] entry.pubEncryptionKey ++
          (appendVarUstringB [] entry.pubSigningKey ++
            (appendVarIntB [] (varInt entry.nonceTrials) ++
              (appendVarIntB [] (varInt entry.extraBytes) ++ []))))) := by
      simp [writeEntry, waiting, writeVarIntB_eq, writeVarUstringB_eq, writeByte]
    rw [written]
    apply reads_cons
    rw [if_neg (by decide), if_pos rfl]
    apply reads_cons
    refine (getVarUstringB_reads listed.short).bind ?_
    rw [loads]
    exact (getVarUstringB_reads shortE).bind ((getVarUstringB_reads shortS).bind
      ((getVarIntB_reads _).bind ((getVarIntB_reads _).bind (reads_return rfl))))
  · simp only [PubAddr.loadKeys, signing, encryption, varInt_toInt32, PubAddr.saved, address,
      waiting]
    rfl

theorem readKeyRecord_entry {entry : PubAddr} (listed : entry.Listed platform)
    (uninit : Uninit) :
    ∃ entry', Reads (readKeyRecord platform uninit) (writeEntry [] entry) (.entry entry') ∧
      entry'.saved = entry.saved ∧ entry'.Listed platform := by
  cases waiting : entry.waitingPubKey with
  | true => exact readKeyRecord_waiting listed waiting uninit
  | false => exact readKeyRecord_known listed waiting uninit

/-! ## Records of objects -/

theorem Storable.ne_nil {payload : UString} (storable : Storable payload) : payload ≠ [] := by
  rintro rfl
  obtain ⟨obj, decoded⟩ := storable.decodes ⟨0, Platform.fit 12 [], 0, Platform.fit 4 [], []⟩ rfl
  cases decoded

/-- The record of an object that the table holds. -/
theorem writeObject_addressed {i : Fin dim} {cur : LinkedNode UString}
    (addressed : cur.Addressed platform i) :
    writeObject [] cur = cur.hash ++ (appendVarUstringB [] cur.info ++ []) := by
  have hash : cur.hash.length = 32 := by simp [addressed.hash_eq]
  have info : cur.info.length ≠ 0 := by
    rw [Ne, List.length_eq_zero_iff]
    exact addressed.storable.ne_nil
  simp [writeObject, hash, info, writeUstring, writeVarUstringB_eq]

/-- The record of a shared object gives its node and the object back. -/
theorem readObjectRecord_saved (draws : Draws platform) {i : Fin dim} {cur : LinkedNode UString}
    (addressed : cur.Addressed platform i) :
    ∃ obj, Object.decodeData { draws.object with messagePayload := cur.info }.toPacket = .ok obj ∧
      Reads (readObjectRecord draws) (writeObject [] cur) (cur, obj) := by
  obtain ⟨obj, decoded⟩ := addressed.storable.decodes
    { draws.object with messagePayload := cur.info }.toPacket rfl
  refine ⟨obj, decoded, ?_⟩
  have hash : (32 : Int) = cur.hash.length := by simp [addressed.hash_eq]
  have short : cur.info.length < intLimit :=
    Nat.lt_of_le_of_lt addressed.storable.short (by decide)
  rw [writeObject_addressed addressed]
  refine (getUstring_reads hash).bind ((getVarUstringB_reads short).bind ?_)
  rw [decoded]
  exact reads_return rfl

/-! ## Whole files -/

namespace KeyRecord

def own? : KeyRecord → Option Addr
  | own address => some address
  | _ => none

def pubAddr? : KeyRecord → Option PubAddr
  | entry address => some address
  | _ => none

/-- What is restored of a record. -/
structure Restores (saved restored : KeyRecord) : Prop where
  own : restored.own?.map Addr.saved = saved.own?.map Addr.saved
  entry : restored.pubAddr?.map PubAddr.saved = saved.pubAddr?.map PubAddr.saved

/-- What the first loop only ever adds. -/
def Addable (platform : Platform) : KeyRecord → Prop
  | own address => address.Generated platform
  | entry address => address.address = [] ∨ address.Listed platform
  | nothing => True

end KeyRecord

namespace Node

/-- The records of `keys.dat`, each with what it was written from. -/
def keyRecords (self : Node) : List (UString × KeyRecord) :=
  self.privAddresses.map (fun own => (writeOwn [] own, .own own)) ++
    self.pubAddresses.map fun entry => (writeEntry [] entry, .entry entry)

/-- The records of the object file, each with what it was written from. -/
def objectRecords (self : Node) : List (UString × LinkedNode UString) :=
  self.sharedObj.toList.map fun cur => (writeObject [] cur, cur)

theorem saveKeys_eq (self : Node) : self.saveKeys = Cursor.file self.keyRecords := by
  rw [saveKeys, Cursor.foldl_file KeyRecord.entry writeEntry_eq,
    Cursor.foldl_file KeyRecord.own writeOwn_eq, keyRecords, Cursor.file_append, List.nil_append]

theorem saveObjects_eq (self : Node) : self.saveObjects = Cursor.file self.objectRecords := by
  rw [saveObjects, Cursor.foldl_file (fun cur => cur) writeObject_eq, objectRecords,
    List.nil_append]

theorem keyRecords_own (self : Node) :
    (self.keyRecords.filterMap fun record => record.2.own?) = self.privAddresses := by
  simp [keyRecords, List.filterMap_append, List.filterMap_map, KeyRecord.own?]

theorem keyRecords_entry (self : Node) :
    (self.keyRecords.filterMap fun record => record.2.pubAddr?) = self.pubAddresses := by
  simp [keyRecords, List.filterMap_append, List.filterMap_map, KeyRecord.pubAddr?]

/-- The whole file holds all records. -/
theorem complete_keyRecords (self : Node) :
    Cursor.complete self.saveKeys.length self.keyRecords = self.keyRecords := by
  apply Cursor.complete_file
  rw [saveKeys_eq]

theorem objectRecords_nodes (self : Node) :
    self.objectRecords.map Prod.snd = self.sharedObj.toList := by
  rw [objectRecords, List.map_map]
  exact List.map_id _

/-! ### Adding records -/

/-- New own addresses are appended in order. -/
theorem foldl_addRecord_own (values : List KeyRecord) (self : Node)
    (named : ∀ own ∈ values.filterMap KeyRecord.own?, own.base.address ≠ [])
    (new : ((self.privAddresses ++ values.filterMap KeyRecord.own?).map
      fun own => own.base.address).Nodup) :
    (values.foldl addRecord self).privAddresses =
      self.privAddresses ++ values.filterMap KeyRecord.own? := by
  apply foldl_collect _ _ values self named new
  · intro self value none
    cases value with
    | own address => cases none
    | entry address => rfl
    | nothing => rfl
  · intro self value own picked nonempty absent
    cases value with
    | own address =>
        cases picked
        have listed : ¬(self.privAddresses.any fun entry => entry.base.same own.base) := by
          intro present
          obtain ⟨entry, member, same⟩ := List.any_eq_true.mp present
          exact absent (List.mem_map.mpr ⟨entry, member, by simpa [PubAddr.same] using same⟩)
        simp only [addRecord, addPrivAddr, if_neg nonempty, if_neg listed]
    | entry address => cases picked
    | nothing => cases picked

/-- New entries are appended in order. -/
theorem foldl_addRecord_entry (values : List KeyRecord) (self : Node)
    (named : ∀ entry ∈ values.filterMap KeyRecord.pubAddr?, entry.address ≠ [])
    (new : ((self.pubAddresses ++ values.filterMap KeyRecord.pubAddr?).map
      PubAddr.address).Nodup) :
    (values.foldl addRecord self).pubAddresses =
      self.pubAddresses ++ values.filterMap KeyRecord.pubAddr? := by
  apply foldl_collect _ _ values self named new
  · intro self value none
    cases value with
    | own address => rfl
    | entry address => cases none
    | nothing => rfl
  · intro self value entry picked nonempty absent
    cases value with
    | own address => cases picked
    | entry address =>
        cases picked
        simp only [addRecord, addAddr, if_neg nonempty, mergeAddr_of_new absent]
    | nothing => cases picked

/-- The first loop does not touch the objects. -/
theorem foldl_addRecord_sharedObj (values : List KeyRecord) (self : Node) :
    (values.foldl addRecord self).sharedObj = self.sharedObj := by
  induction values generalizing self with
  | nil => rfl
  | cons value rest ih =>
      rw [List.foldl_cons, ih]
      cases value <;> rfl

/-- Whether the second loop keeps an object. -/
def live (draws : Draws platform) (cur : LinkedNode UString) : Bool :=
  match Object.decodeData { draws.object with messagePayload := cur.info }.toPacket with
  | .ok obj => draws.now < obj.time
  | .error _ => false

/-- What the record of a node is read as. -/
def ReadAs (draws : Draws platform) (cur : LinkedNode UString)
    (value : LinkedNode UString × Object) : Prop :=
  value.1 = cur ∧
    Object.decodeData { draws.object with messagePayload := cur.info }.toPacket = .ok value.2

/-- The second loop inserts the objects that are not over. -/
theorem foldl_addObject {draws : Draws platform} {nodes : List (LinkedNode UString)}
    {values : List (LinkedNode UString × Object)}
    (read : List.Forall₂ (ReadAs draws) nodes values) (self : Node) :
    values.foldl (addObject draws) self = {
      self with
      sharedObj := self.sharedObj.insertAll draws.buffer (nodes.filter (live draws)) } := by
  induction read generalizing self with
  | nil => rfl
  | @cons cur value nodes values head _ ih =>
      obtain ⟨rfl, decoded⟩ := head
      have kept : live draws value.1 = decide (draws.now < value.2.time) := by
        simp only [live, decoded]
      rw [List.foldl_cons, ih, addObject]
      by_cases later : draws.now < value.2.time
      · rw [if_pos later, List.filter_cons_of_pos (by simpa [kept] using later)]
        rfl
      · rw [if_neg later, List.filter_cons_of_neg (by simpa [kept] using later)]

theorem readKeyRecord_ends (platform : Platform) (uninit : Uninit) (file : UString) :
    readKeyRecord platform uninit file file.length = .error (.code 1) := by
  rw [readKeyRecord, Cursor.bind_of_error (getInt8_ends file)]

theorem readObjectRecord_ends (draws : Draws platform) (file : UString) :
    readObjectRecord draws file file.length = .error (.code 1) := by
  have outside : ¬(file.length + 32 ≤ file.length) := by omega
  rw [readObjectRecord, Cursor.bind_of_error]
  simp [FileUString.getUstring, outside]

theorem loadObjectsFile_nil (draws : Draws platform) (self : Node) :
    self.loadObjectsFile draws [] = .ok self := by
  have ends := readObjectRecord_ends draws []
  rw [List.length_nil] at ends
  simp only [loadObjectsFile, Cursor.drain, ends]
  rfl

/-! ### Loading keeps the invariant -/

/-- An own address is loaded with matching keys, whatever they are. -/
theorem restoreOwn_addable {uninit : Uninit} {address privE privS : UString} {request : Int64}
    {value : KeyRecord}
    (restored : restoreOwn platform uninit address privE privS request = .ok value) :
    value.Addable platform := by
  unfold restoreOwn at restored
  obtain ⟨⟨_, base⟩, _, restored⟩ := bind_eq_ok.mp restored
  obtain ⟨⟨loaded, tmp⟩, load, restored⟩ := bind_eq_ok.mp restored
  cases loaded with
  | true =>
      cases restored
      exact ⟨_, tmp, _, _, _, _, _, _, true, _, .inl rfl, .inl rfl, nofun, load, rfl⟩
  | false =>
      cases restored
      trivial

/-- Whatever the file says, a record is one that may be added. -/
theorem readKeyRecord_addable {uninit : Uninit} {file : UString} {position next : Nat}
    {value : KeyRecord}
    (read : readKeyRecord platform uninit file position = .ok (value, next)) :
    value.Addable platform := by
  unfold readKeyRecord at read
  obtain ⟨type, _, _, read⟩ := Cursor.bind_eq_ok.mp read
  split at read
  next =>
    obtain ⟨address, _, _, read⟩ := Cursor.bind_eq_ok.mp read
    obtain ⟨privE, _, _, read⟩ := Cursor.bind_eq_ok.mp read
    obtain ⟨privS, _, _, read⟩ := Cursor.bind_eq_ok.mp read
    obtain ⟨request, _, _, read⟩ := Cursor.bind_eq_ok.mp read
    exact restoreOwn_addable (Cursor.lift_eq_ok read)
  split at read
  next =>
    obtain ⟨waiting, _, _, read⟩ := Cursor.bind_eq_ok.mp read
    obtain ⟨address, _, readAddress, read⟩ := Cursor.bind_eq_ok.mp read
    obtain ⟨⟨flag, tmp⟩, _, loads, read⟩ := Cursor.bind_eq_ok.mp read
    have known := PubAddr.Listed.of_new (FileUString.getVarUstringB_length readAddress)
      (Cursor.lift_eq_ok loads)
    simp only at read
    split at read
    next =>
      obtain ⟨_, _, _, read⟩ := Cursor.bind_eq_ok.mp read
      obtain ⟨_, _, _, read⟩ := Cursor.bind_eq_ok.mp read
      obtain ⟨_, _, _, read⟩ := Cursor.bind_eq_ok.mp read
      obtain ⟨_, _, _, read⟩ := Cursor.bind_eq_ok.mp read
      cases read
      rcases known with empty | listed
      · exact .inl ((PubAddr.loadKeys_address _ _ _ _ _).trans empty)
      · exact .inr (.loadKeys listed.short listed.decodes _ _ _ _)
    next =>
      cases read
      exact known
  next =>
    cases read
    trivial

theorem addRecord_changes {value : KeyRecord} (addable : value.Addable platform) (self : Node) :
    Changes platform self (self.addRecord value) := by
  cases value with
  | own address => exact .single (.adopt self address addable)
  | entry address =>
      rcases addable with empty | listed
      · have same : self.addAddr address = self := by simp only [addAddr, if_pos empty]
        rw [addRecord, same]
      · exact .single (.learn self address listed)
  | nothing => exact .refl

/-- Loading any `keys.dat`. -/
theorem loadKeysFile_changes {uninit : Uninit} {self after : Node} {kFile : UString}
    (result : self.loadKeysFile platform uninit kFile = .ok after) :
    Changes platform self after := by
  refine Cursor.drain_invariant ?_ Relation.ReflTransGen.refl result
  intro node file position next value read changes
  exact changes.trans (addRecord_changes (readKeyRecord_addable read) node)

/-- Inserting objects under their inventory hashes. -/
theorem insertAll_changes {nodes : List (LinkedNode UString)}
    (addressed : ∀ cur ∈ nodes, ∃ i, cur.Addressed platform i) (buffer : UString) (self : Node) :
    Changes platform self { self with sharedObj := self.sharedObj.insertAll buffer nodes } := by
  induction nodes generalizing self with
  | nil => exact .refl
  | cons cur rest ih =>
      obtain ⟨i, here⟩ := addressed cur List.mem_cons_self
      have shared : Change platform self (self.share platform buffer cur.info).2 :=
        .share self buffer cur.info here.storable
      rw [share, ← here.hash_eq] at shared
      exact .head shared (ih (fun other member => addressed other (List.mem_cons_of_mem _ member))
        { self with sharedObj := (self.sharedObj.insert buffer cur.info cur.hash).2 })

/-! ### Loading what was saved -/

theorem Sound.mem_toList {self : Node} (sound : self.Sound platform) {cur : LinkedNode UString}
    (member : cur ∈ self.sharedObj.toList) : ∃ i, cur.Addressed platform i := by
  obtain ⟨i, _, inside⟩ := List.mem_flatMap.mp member
  exact ⟨i, sound.addressed i cur inside⟩

/-- A prefix of the object file gives the objects completely inside that are not over. -/
theorem loadObjectsFile_cut {saved self : Node} (sound : saved.Sound platform)
    (draws : Draws platform) (n : Nat) :
    self.loadObjectsFile draws (saved.saveObjects.take n) = .ok {
      self with
      sharedObj := self.sharedObj.insertAll draws.buffer
        (((Cursor.complete n saved.objectRecords).map Prod.snd).filter (live draws)) } := by
  have : Nonempty (LinkedNode UString × Object) := ⟨⟨[], []⟩, draws.object⟩
  have reads : ∀ record ∈ saved.objectRecords, ∃ value,
      Reads (readObjectRecord draws) record.1 value ∧ ReadAs draws record.2 value := by
    intro record member
    obtain ⟨cur, inside, rfl⟩ := List.mem_map.mp member
    obtain ⟨i, addressed⟩ := sound.mem_toList inside
    obtain ⟨obj, decoded, reads⟩ := readObjectRecord_saved draws addressed
    exact ⟨(cur, obj), reads, rfl, decoded⟩
  have nonempty : ∀ record ∈ saved.objectRecords, 0 < record.1.length := by
    intro record member
    obtain ⟨cur, inside, rfl⟩ := List.mem_map.mp member
    obtain ⟨i, addressed⟩ := sound.mem_toList inside
    simp [writeObject_addressed addressed, addressed.hash_eq]
  obtain ⟨values, read, drained⟩ := @Cursor.drain_cut_related _ _ _ _ _ caught _ _
    (addObject draws) _ (by rfl) _ _ reads nonempty (readObjectRecord_ends draws) n self
  rw [loadObjectsFile, saveObjects_eq, drained, foldl_addObject read]

/-- What was restored has the different addresses of what was saved. -/
theorem restored_fresh {β : Type} {address : β → UString} {restored written saved : List β}
    (same : restored.map address = written.map address) (part : written.Sublist saved)
    (named : ∀ entry ∈ saved, address entry ≠ []) (distinct : (saved.map address).Nodup) :
    (∀ entry ∈ restored, address entry ≠ []) ∧ (restored.map address).Nodup := by
  constructor
  · intro entry member
    have inside := List.mem_map_of_mem (f := address) member
    rw [same] at inside
    obtain ⟨other, found, equal⟩ := List.mem_map.mp inside
    rw [← equal]
    exact named other (part.subset found)
  · rw [same]
    exact (part.map address).nodup distinct

/-- Each record of `keys.dat` is read again and restores what it was written from. -/
theorem keyRecords_read {saved : Node} (sound : saved.Sound platform)
    (full : ∀ own ∈ saved.privAddresses, own.FullWidthKeys platform)
    (long : ∀ own ∈ saved.privAddresses, own.LongDigest platform) (uninit : Uninit) :
    ∀ record ∈ saved.keyRecords, ∃ value,
      Reads (readKeyRecord platform uninit) record.1 value ∧ record.2.Restores value := by
  intro record member
  rcases List.mem_append.mp member with inOwn | inEntries
  · obtain ⟨own, inside, rfl⟩ := List.mem_map.mp inOwn
    obtain ⟨generated, named⟩ := sound.generated own inside
    obtain ⟨own', read, same, _⟩ := readKeyRecord_own
      (generated.loaded named (long own inside)) (generated.keysMatch named (full own inside))
      uninit
    exact ⟨.own own', read, congrArg some same, rfl⟩
  · obtain ⟨entry, inside, rfl⟩ := List.mem_map.mp inEntries
    obtain ⟨entry', read, same, _⟩ := readKeyRecord_entry (sound.listed entry inside).1 uninit
    exact ⟨.entry entry', read, rfl, congrArg some same⟩

theorem keyRecords_nonempty {saved : Node} :
    ∀ record ∈ saved.keyRecords, 0 < record.1.length := by
  intro record member
  rcases List.mem_append.mp member with inOwn | inEntries
  · obtain ⟨own, _, rfl⟩ := List.mem_map.mp inOwn
    simp [writeOwn, writeInt64_eq, writeVarUstringB_eq, writeByte]
  · obtain ⟨entry, _, rfl⟩ := List.mem_map.mp inEntries
    simp only [writeEntry, writeVarIntB_eq, writeVarUstringB_eq, writeByte]
    split <;> simp

/-- A prefix of `keys.dat` gives the address records completely inside. -/
theorem loadKeysFile_prefix {saved : Node} (sound : saved.Sound platform)
    (full : ∀ own ∈ saved.privAddresses, own.FullWidthKeys platform)
    (long : ∀ own ∈ saved.privAddresses, own.LongDigest platform) (uninit : Uninit) (n : Nat) :
    ∃ loaded, new.loadKeysFile platform uninit (saved.saveKeys.take n) = .ok loaded ∧
      loaded.privAddresses.map Addr.saved =
        ((Cursor.complete n saved.keyRecords).filterMap fun record => record.2.own?).map
          Addr.saved ∧
      loaded.pubAddresses.map PubAddr.saved =
        ((Cursor.complete n saved.keyRecords).filterMap fun record => record.2.pubAddr?).map
          PubAddr.saved ∧
      loaded.sharedObj = HashTable.empty := by
  obtain ⟨values, restores, drained⟩ := @Cursor.drain_cut_related _ _ _ _ _ caught _ _
    addRecord _ (by rfl) _ _ (keyRecords_read sound full long uninit) keyRecords_nonempty
    (readKeyRecord_ends platform uninit) n new
  have inside := Cursor.complete_sublist n saved.keyRecords
  have own : (values.filterMap KeyRecord.own?).map Addr.saved =
      ((Cursor.complete n saved.keyRecords).filterMap fun record => record.2.own?).map
        Addr.saved := by
    rw [filterMap_eq_of_forall₂ restores fun _ _ restored => restored.own, List.filterMap_map]
    rfl
  have entry : (values.filterMap KeyRecord.pubAddr?).map PubAddr.saved =
      ((Cursor.complete n saved.keyRecords).filterMap fun record => record.2.pubAddr?).map
        PubAddr.saved := by
    rw [filterMap_eq_of_forall₂ restores fun _ _ restored => restored.entry, List.filterMap_map]
    rfl
  have ownInside := inside.filterMap fun record => record.2.own?
  have entryInside := inside.filterMap fun record => record.2.pubAddr?
  rw [keyRecords_own] at ownInside
  rw [keyRecords_entry] at entryInside
  have ownAddress : (values.filterMap KeyRecord.own?).map (fun own => own.base.address) =
      ((Cursor.complete n saved.keyRecords).filterMap fun record => record.2.own?).map
        fun own => own.base.address := by
    have addresses := congrArg (List.map SavedOwn.address) own
    rwa [List.map_map, List.map_map] at addresses
  have entryAddress : (values.filterMap KeyRecord.pubAddr?).map PubAddr.address =
      ((Cursor.complete n saved.keyRecords).filterMap fun record => record.2.pubAddr?).map
        PubAddr.address := by
    have addresses := congrArg (List.map SavedEntry.address) entry
    rwa [List.map_map, List.map_map] at addresses
  obtain ⟨ownNamed, ownNew⟩ := restored_fresh ownAddress ownInside
    (fun own member => (sound.generated own member).2) sound.ownDistinct
  obtain ⟨entryNamed, entryNew⟩ := restored_fresh entryAddress entryInside
    (fun entry member => (sound.listed entry member).2) sound.listedDistinct
  refine ⟨values.foldl addRecord new, ?_, ?_, ?_, foldl_addRecord_sharedObj values new⟩
  · rw [loadKeysFile, saveKeys_eq, drained]
  · rw [foldl_addRecord_own values new ownNamed ownNew]
    exact own
  · rw [foldl_addRecord_entry values new entryNamed entryNew]
    exact entry

/-- `load` after a crash gives what the two prefixes hold completely. -/
theorem load_prefix {saved : Node} (sound : saved.Sound platform)
    (full : ∀ own ∈ saved.privAddresses, own.FullWidthKeys platform)
    (long : ∀ own ∈ saved.privAddresses, own.LongDigest platform) (draws : Draws platform)
    (uninit : Uninit) (n m : Nat) :
    ∃ loaded, new.load draws uninit (some (saved.saveObjects.take m))
        (some (saved.saveKeys.take n)) = .ok loaded ∧
      loaded.privAddresses.map Addr.saved =
        ((Cursor.complete n saved.keyRecords).filterMap fun record => record.2.own?).map
          Addr.saved ∧
      loaded.pubAddresses.map PubAddr.saved =
        ((Cursor.complete n saved.keyRecords).filterMap fun record => record.2.pubAddr?).map
          PubAddr.saved ∧
      loaded.sharedObj.toList =
        ((Cursor.complete m saved.objectRecords).map Prod.snd).filter (live draws) := by
  obtain ⟨loaded, keys, own, entries, empty⟩ := loadKeysFile_prefix sound full long uninit n
  have objects := @loadObjectsFile_cut platform saved loaded sound draws m
  refine ⟨{
    loaded with
    sharedObj := loaded.sharedObj.insertAll draws.buffer
      (((Cursor.complete m saved.objectRecords).map Prod.snd).filter (live draws)) },
    ?_, own, entries, ?_⟩
  · simp only [load, Option.elim_some, keys, bind, Except.bind]
    exact objects
  · have chains : ∀ i, ∀ cur ∈ saved.sharedObj.table i, hashF draws.buffer cur.hash = i := by
      intro i cur member
      have addressed := sound.addressed i cur member
      rw [addressed.hash_eq, hashF_inventoryHash, ← addressed.hash_eq, ← addressed.chain_eq]
    have part : (((Cursor.complete m saved.objectRecords).map Prod.snd).filter
        (live draws)).Sublist saved.sharedObj.toList := by
      have inside := (Cursor.complete_sublist m saved.objectRecords).map Prod.snd
      rw [objectRecords_nodes] at inside
      exact List.filter_sublist.trans inside
    have inserted := HashTable.toList_insertAll chains sound.distinct part
    dsimp only
    rw [← empty] at inserted
    exact inserted

/-- A restart keeps the invariant, whatever `keys.dat` holds. -/
theorem load_changes {saved after : Node} (sound : saved.Sound platform) {draws : Draws platform}
    {uninit : Uninit} {kFile : Option UString} {m : Nat}
    (result : new.load draws uninit (some (saved.saveObjects.take m)) kFile = .ok after) :
    Changes platform new after := by
  unfold load at result
  obtain ⟨loaded, keys, objects⟩ := bind_eq_ok.mp result
  have first : Changes platform new loaded := by
    cases kFile with
    | none =>
        cases keys
        exact .refl
    | some file => exact loadKeysFile_changes keys
  rw [Option.elim_some, loadObjectsFile_cut sound] at objects
  cases objects
  refine first.trans (insertAll_changes ?_ draws.buffer loaded)
  intro cur member
  obtain ⟨record, inside, rfl⟩ := List.mem_map.mp (List.mem_of_mem_filter member)
  obtain ⟨cur, stored, rfl⟩ := List.mem_map.mp ((Cursor.complete_sublist _ _).subset inside)
  exact sound.mem_toList stored

end Node

end BitMRC

import BitMRC.Node.Sharing
import BitMRC.Utils.HashTableMap

/-!
# Recovery after a crash

Whatever part of the two files was written, a restart gives back the records that
are completely there.  An own address is built again from its private keys; this
fails when the digest of its public keys has more than 16 leading zeros, since then
`loadAddr` had refused its string in the first place.
-/

namespace BitMRC

open Foundation

variable {platform : Platform}

/-- From a prefix of either file a restart of a reachable node recovers, in order,
exactly the complete records, of the objects those that are not over. -/
theorem files_recovered {sys : System} (reachable : System.Reachable platform sys)
    (full : ∀ own ∈ sys.node.privAddresses, own.FullWidthKeys platform)
    (long : ∀ own ∈ sys.node.privAddresses, own.LongDigest platform) (draws : Draws platform)
    (uninit : Uninit) (n m : Nat) :
    ∃ loaded, Node.new.load draws uninit (some (sys.node.saveObjects.take m))
        (some (sys.node.saveKeys.take n)) = .ok loaded ∧
      loaded.privAddresses.map Addr.saved =
        ((Cursor.complete n sys.node.keyRecords).filterMap fun record => record.2.own?).map
          Addr.saved ∧
      loaded.pubAddresses.map PubAddr.saved =
        ((Cursor.complete n sys.node.keyRecords).filterMap fun record => record.2.pubAddr?).map
          PubAddr.saved ∧
      loaded.sharedObj.toList = ((Cursor.complete m sys.node.objectRecords).map
        Prod.snd).filter (Node.live draws) :=
  Node.load_prefix reachable.sound full long draws uninit n m

/-! ## A cut inside the last records -/

/-- Keys that are saved alike have the same digest. -/
theorem Addr.LongDigest.of_saved {own other : Addr} (long : own.LongDigest platform)
    (same : other.saved = own.saved) : other.LongDigest platform := by
  have signing := congrArg SavedOwn.pubSigningKey same
  have encryption := congrArg SavedOwn.pubEncryptionKey same
  simp only [Addr.saved] at signing encryption
  rwa [Addr.LongDigest, ← signing, ← encryption] at long

namespace Node

theorem complete_keyRecords_cut {self : Node} {others : List PubAddr} {last : PubAddr}
    (entries : self.pubAddresses = others ++ [last]) :
    Cursor.complete (self.saveKeys.length - 1) self.keyRecords =
      keyRecords { self with pubAddresses := others } := by
  have records : self.keyRecords =
      keyRecords { self with pubAddresses := others } ++ [(writeEntry [] last, .entry last)] := by
    simp [keyRecords, entries]
  have nonempty := @keyRecords_nonempty self (writeEntry [] last, .entry last) (by simp [records])
  have length : self.saveKeys.length =
      (Cursor.file (keyRecords { self with pubAddresses := others })).length +
        (writeEntry [] last).length := by
    rw [saveKeys_eq, records, Cursor.file_append, List.length_append]
    simp [Cursor.file]
  simp only at nonempty
  rw [records, Cursor.complete_cut]
  · omega
  · rw [← records, ← saveKeys_eq]
    omega

theorem complete_objectRecords_cut {self : Node} (sound : self.Sound platform)
    {others : List (LinkedNode UString)} {last : LinkedNode UString}
    (nodes : self.sharedObj.toList = others ++ [last]) :
    (Cursor.complete (self.saveObjects.length - 1) self.objectRecords).map Prod.snd = others := by
  obtain ⟨i, addressed⟩ := sound.mem_toList (show last ∈ self.sharedObj.toList by simp [nodes])
  have nonempty : 0 < (writeObject [] last).length := by
    simp [writeObject_addressed addressed, addressed.hash_eq]
  have records : self.objectRecords =
      others.map (fun cur => (writeObject [] cur, cur)) ++ [(writeObject [] last, last)] := by
    simp [objectRecords, nodes]
  have length : self.saveObjects.length =
      (Cursor.file (others.map fun cur => (writeObject [] cur, cur))).length +
        (writeObject [] last).length := by
    rw [saveObjects_eq, records, Cursor.file_append, List.length_append]
    simp [Cursor.file]
  rw [records, Cursor.complete_cut]
  · rw [List.map_map]
    exact List.map_id _
  · omega
  · rw [← records, ← saveObjects_eq]
    omega

end Node

/-! ## A node with records of each kind -/

theorem Addr.sample_generated (n : UInt8) : (Addr.sample n).Generated Platform.sample :=
  ⟨_, Addr.sample n, _, _, _, _, _, _, true, (Addr.sample n).base.lastPubKeyRequest, .inl rfl,
    .inl rfl, nofun, (Addr.sample_spec n).1, rfl⟩

/-- A request of time 0 with a tag of one byte. -/
def Object.sampleTagged (tag : UInt8) : Object := {
  Object.sample with
  messagePayload := Object.sample.messagePayload ++ [tag]
  objectPayload := [tag] }

namespace Node

/-- A node whose `keys.dat` holds one own address and two that wait for their keys. -/
def sampleOwner : Node := {
  Node.new with
  privAddresses := [Addr.sample 1]
  pubAddresses := [Addr.sampleEntry 2, Addr.sampleEntry 3] }

theorem sampleOwner_sound : sampleOwner.Sound Platform.sample where
  addressed := Sound.new.addressed
  distinct := (@Sound.new Platform.sample).distinct
  generated := List.forall_mem_singleton.mpr ⟨Addr.sample_generated 1, by decide +kernel⟩
  ownDistinct := List.nodup_singleton _
  listed := by
    have listed (n : UInt8) (short : (Addr.sample n).base.address.length < intLimit)
        (named : (Addr.sample n).base.address ≠ []) :
        (Addr.sampleEntry n).Listed Platform.sample ∧ (Addr.sampleEntry n).address ≠ [] :=
      ⟨.of_loadAddr short (Addr.sampleEntry_loads n), named⟩
    intro entry member
    rcases List.mem_cons.mp member with rfl | last
    · exact listed 2 (by decide +kernel) (by decide +kernel)
    · rw [List.mem_singleton.mp last]
      exact listed 3 (by decide +kernel) (by decide +kernel)
  listedDistinct := by decide +kernel

/-- It is started with this file and is sent two objects. -/
theorem sampleOwner_restarted : ∃ sys kept lost, System.Reachable Platform.sample sys ∧
    sys.node.privAddresses.map Addr.saved = [(Addr.sample 1).saved] ∧
    (∀ own ∈ sys.node.privAddresses, own.LongDigest Platform.sample) ∧
    sys.node.pubAddresses.map PubAddr.saved =
      [(Addr.sampleEntry 2).saved, (Addr.sampleEntry 3).saved] ∧
    sys.node.sharedObj.toList = [kept, lost] ∧
    live { Draws.sample with now := -1 } kept = true := by
  obtain ⟨node, restarted, own, entries, objects⟩ := load_prefix sampleOwner_sound
    (fun own _ => ⟨Platform.sample_fullWidth _, Platform.sample_fullWidth _⟩)
    (List.forall_mem_singleton.mpr (Addr.sample_loaded 1).longDigest) Draws.sample
    ⟨0, 0, 0, 0⟩ sampleOwner.saveKeys.length 0
  rw [complete_keyRecords, keyRecords_own] at own
  rw [complete_keyRecords, keyRecords_entry] at entries
  have long : ∀ own ∈ node.privAddresses, own.LongDigest Platform.sample := by
    intro other member
    have saved := List.mem_map_of_mem (f := Addr.saved) member
    rw [own] at saved
    exact (Addr.sample_loaded 1).longDigest.of_saved (List.mem_singleton.mp saved)
  have none : node.sharedObj = HashTable.empty := by
    apply HashTable.eq_empty_of_toList
    rw [objects]
    have nothing : sampleOwner.objectRecords = [] := by
      have empty := (@HashTable.holds_empty UString (hashF []) id).toList_perm.eq_nil
      exact congrArg (List.map _) empty
    rw [nothing]
    rfl
  have first := (System.Reachable.restart .start restarted).step
    (@System.Step.insert Platform.sample _ 0 Draws.sample (Object.sampleTagged 1).toPacket
      (Object.sampleTagged 1) rfl (by decide +kernel) (by decide +kernel))
  have second := first.step
    (@System.Step.insert Platform.sample _ 1 Draws.sample (Object.sampleTagged 2).toPacket
      (Object.sampleTagged 2) rfl (by decide +kernel) (by decide +kernel))
  have holds := ((@HashTable.holds_empty UString (hashF []) fun payload =>
    (inventoryHash Platform.sample payload).toUString).insertBy
      (Object.sampleTagged 1).messagePayload).insertBy (Object.sampleTagged 2).messagePayload
  have contents : ((ContentMap.empty.insert (Object.sampleTagged 1).messagePayload).insert
      (Object.sampleTagged 2).messagePayload).contents =
        [(Object.sampleTagged 1).messagePayload, (Object.sampleTagged 2).messagePayload] := by
    decide +kernel
  have listed := holds.toList_perm
  rw [contents, ← none] at listed
  obtain ⟨kept, lost, same⟩ := List.length_eq_two.mp listed.length_eq
  refine ⟨_, kept, lost, second, own, long, entries, same, ?_⟩
  have member := listed.mem_iff.mp (same ▸ List.mem_cons_self : kept ∈ _)
  rcases List.mem_cons.mp member with rfl | last
  · decide +kernel
  · rw [List.mem_singleton.mp last]
    decide +kernel

end Node

/-- Both of its files are cut in the last record. -/
theorem files_recovered_sample : ∃ sys loaded kept lost, System.Reachable Platform.sample sys ∧
    sys.node.privAddresses.map Addr.saved = [(Addr.sample 1).saved] ∧
    sys.node.pubAddresses.map PubAddr.saved =
      [(Addr.sampleEntry 2).saved, (Addr.sampleEntry 3).saved] ∧
    sys.node.sharedObj.toList = [kept, lost] ∧
    Node.new.load { Draws.sample with now := -1 } ⟨0, 0, 0, 0⟩
      (some (sys.node.saveObjects.take (sys.node.saveObjects.length - 1)))
      (some (sys.node.saveKeys.take (sys.node.saveKeys.length - 1))) = .ok loaded ∧
    loaded.privAddresses.map Addr.saved = [(Addr.sample 1).saved] ∧
    loaded.pubAddresses.map PubAddr.saved = [(Addr.sampleEntry 2).saved] ∧
    loaded.sharedObj.toList = [kept] := by
  obtain ⟨sys, kept, lost, reachable, own, long, entries, nodes, live⟩ :=
    Node.sampleOwner_restarted
  obtain ⟨loaded, result, ownBack, entriesBack, nodesBack⟩ := files_recovered reachable
    (fun own _ => ⟨Platform.sample_fullWidth _, Platform.sample_fullWidth _⟩) long
    { Draws.sample with now := -1 } ⟨0, 0, 0, 0⟩ (sys.node.saveKeys.length - 1)
    (sys.node.saveObjects.length - 1)
  obtain ⟨first, rest, book, saved, others⟩ := List.map_eq_cons_iff.mp entries
  obtain ⟨last, rfl, _⟩ := List.map_eq_singleton_iff.mp others
  have cut := @Node.complete_keyRecords_cut sys.node [first] last book
  rw [cut, Node.keyRecords_own] at ownBack
  rw [cut, Node.keyRecords_entry] at entriesBack
  rw [@Node.complete_objectRecords_cut _ _ reachable.sound [kept] lost nodes,
    List.filter_cons_of_pos live] at nodesBack
  exact ⟨sys, loaded, kept, lost, reachable, own, entries, nodes, result, ownBack.trans own,
    entriesBack.trans (congrArg (fun entry => [entry]) saved), nodesBack⟩

/-! ## A digest with many zeros -/

/-- A platform on which every RIPEMD-160 digest starts with 19 zeros. -/
def Platform.sparse : Platform :=
  { Platform.sample with ripemd160 := fun _ => ⟨List.replicate 19 0 ++ [1], rfl⟩ }

def Draws.sparse : Draws Platform.sparse :=
  { Draws.sample with ephemeral_valid := Draws.sample.ephemeral_valid }

/-- The address that `generateRandom` leaves behind there. -/
def Addr.sparse : Addr :=
  match (Addr.new ⟨0, 0, 0, 0⟩).generateRandom Platform.sparse [(2 ^ 255, 2 ^ 255)] with
  | .ok (some (_, own)) => own
  | _ => Addr.new ⟨0, 0, 0, 0⟩

theorem Addr.generateRandom_sparse :
    (Addr.new ⟨0, 0, 0, 0⟩).generateRandom Platform.sparse [(2 ^ 255, 2 ^ 255)] =
      .ok (some (false, Addr.sparse)) := by
  decide +kernel

/-- The record of such an own address is complete in `keys.dat`, and yet lost. -/
theorem own_address_lost_sparse :
    ∃ sys loaded, System.Reachable Platform.sparse sys ∧
      (∀ own ∈ sys.node.privAddresses, own.FullWidthKeys Platform.sparse) ∧
      Node.new.load Draws.sparse ⟨0, 0, 0, 0⟩ (some (sys.node.saveObjects.take 0))
        (some (sys.node.saveKeys.take sys.node.saveKeys.length)) = .ok loaded ∧
      loaded.privAddresses.map Addr.saved ≠
        ((Cursor.complete sys.node.saveKeys.length sys.node.keyRecords).filterMap
          fun record => record.2.own?).map Addr.saved := by
  have reachable : System.Reachable Platform.sparse (.idle (Node.new.addPrivAddr Addr.sparse)) :=
    .step .start (.operation (.generateRandom Addr.generateRandom_sparse))
  have restored : (Node.new.loadKeysFile Platform.sparse ⟨0, 0, 0, 0⟩
      (Node.new.addPrivAddr Addr.sparse).saveKeys).toOption.map (·.privAddresses) = some [] := by
    decide +kernel
  have held : (Node.new.addPrivAddr Addr.sparse).privAddresses ≠ [] := by decide +kernel
  cases keys : Node.new.loadKeysFile Platform.sparse ⟨0, 0, 0, 0⟩
      (Node.new.addPrivAddr Addr.sparse).saveKeys with
  | error failure =>
      rw [keys] at restored
      cases restored
  | ok loaded =>
      rw [keys] at restored
      have none : loaded.privAddresses = [] := Option.some.inj restored
      refine ⟨_, loaded, reachable, ?_, ?_, ?_⟩
      · intro own _
        exact ⟨Platform.sample_fullWidth _, Platform.sample_fullWidth _⟩
      · simp only [Node.load, System.idle, List.take_length, Option.elim_some, keys, bind,
          Except.bind, List.take_zero, Node.loadObjectsFile_nil]
      · rw [none, System.idle, Node.complete_keyRecords, Node.keyRecords_own]
        simpa using Ne.symm held

end BitMRC

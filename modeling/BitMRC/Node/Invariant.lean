import BitMRC.Node.Changes
import Mathlib.Data.List.Nodup

/-!
# The invariant of a node

Shared objects are addressed by their content, address strings are unique in both
lists, and every entry came about in a proper way.  Each kind of `Change` keeps
this, and so does every operation.
-/

namespace BitMRC

open Foundation UString

variable {platform : Platform}

/-! ## The invariant -/

/-- A shared object lies in the chain of its own inventory hash. -/
structure LinkedNode.Addressed (platform : Platform) (i : Fin dim) (node : LinkedNode UString) :
    Prop where
  hash_eq : node.hash = (Node.inventoryHash platform node.info).toUString
  chain_eq : i = hashF [] node.hash
  storable : Storable node.info

namespace Node

structure Sound (platform : Platform) (node : Node) : Prop where
  addressed : ∀ i, ∀ cur ∈ node.sharedObj.table i, cur.Addressed platform i
  distinct : ∀ i, ((node.sharedObj.table i).map LinkedNode.info).Nodup
  generated : ∀ own ∈ node.privAddresses, own.Generated platform ∧ own.base.address ≠ []
  ownDistinct : (node.privAddresses.map fun own => own.base.address).Nodup
  listed : ∀ entry ∈ node.pubAddresses, entry.Listed platform ∧ entry.address ≠ []
  listedDistinct : (node.pubAddresses.map PubAddr.address).Nodup

/-- A node that has loaded nothing. -/
theorem Sound.new : Sound platform Node.new where
  addressed := by
    intro i node member
    cases member
  distinct := fun i => List.nodup_nil
  generated := by
    intro own member
    cases member
  ownDistinct := List.nodup_nil
  listed := by
    intro entry member
    cases member
  listedDistinct := List.nodup_nil

/-! ## The shared objects -/

/-- The chain of an inventory hash, which no buffer contents decide. -/
theorem hashF_inventoryHash (buffer payload : UString) :
    hashF buffer (inventoryHash platform payload).toUString =
      hashF [] (inventoryHash platform payload).toUString :=
  hashF_of_four_le (by simp) buffer []

/-- In a sound node a stored payload lies in the chain of its inventory hash. -/
theorem Sound.stored_iff {self : Node} (sound : self.Sound platform) (buffer payload : UString) :
    self.sharedObj.Stored payload ↔
      ∃ node ∈ self.sharedObj.table
        (hashF buffer (inventoryHash platform payload).toUString), node.info = payload := by
  constructor
  · rintro ⟨i, node, member, rfl⟩
    have addressed := sound.addressed i node member
    rw [hashF_inventoryHash, ← addressed.hash_eq, ← addressed.chain_eq]
    exact ⟨node, member, rfl⟩
  · rintro ⟨node, member, equal⟩
    exact ⟨_, node, member, equal⟩

/-- With an empty chain the payload is not stored anywhere. -/
theorem Sound.not_stored_of_empty {self : Node} (sound : self.Sound platform)
    {buffer payload : UString} (empty : self.sharedObj.table
      (hashF buffer (inventoryHash platform payload).toUString) = []) :
    ¬self.sharedObj.Stored payload := by
  rw [sound.stored_iff buffer payload, empty]
  rintro ⟨node, member, _⟩
  cases member

theorem Sound.share {self : Node} (sound : self.Sound platform) (buffer : UString)
    {payload : UString} (storable : Storable payload) :
    (self.share platform buffer payload).2.Sound platform := by
  have table : (self.share platform buffer payload).2.sharedObj =
      (self.sharedObj.insert buffer payload (inventoryHash platform payload).toUString).2 := rfl
  constructor
  · intro i node member
    rw [table] at member
    rcases HashTable.mem_insert _ _ _ _ member with old | ⟨chain, rfl⟩
    · exact sound.addressed i node old
    · exact ⟨rfl, by rw [chain, hashF_inventoryHash], storable⟩
  · intro i
    rw [table]
    rcases HashTable.insert_cases self.sharedObj buffer payload
        (inventoryHash platform payload).toUString with ⟨empty, result⟩ | ⟨_, result⟩ |
        ⟨_, absent, result⟩
    · rw [result]
      by_cases same : i = hashF buffer (inventoryHash platform payload).toUString
      · rw [same, HashTable.append_table_self, empty]
        exact List.nodup_singleton _
      · rw [HashTable.append_table_of_ne _ _ same]
        exact sound.distinct i
    · rw [result]
      exact sound.distinct i
    · rw [result]
      by_cases same : i = hashF buffer (inventoryHash platform payload).toUString
      · rw [same, HashTable.append_table_self, List.map_append, List.map_singleton]
        apply List.Nodup.append (sound.distinct _) (List.nodup_singleton _)
        intro info old fresh
        obtain ⟨node, member, rfl⟩ := List.mem_map.mp old
        exact absent node member (List.mem_singleton.mp fresh)
      · rw [HashTable.append_table_of_ne _ _ same]
        exact sound.distinct i
  · exact sound.generated
  · exact sound.ownDistinct
  · exact sound.listed
  · exact sound.listedDistinct

/-! ## The address book -/

theorem mem_mergeAddr {address found : PubAddr} {entries : List PubAddr}
    (member : found ∈ mergeAddr address entries) : found = address ∨ found ∈ entries := by
  induction entries with
  | nil => exact .inl (List.mem_singleton.mp member)
  | cons entry rest ih =>
      rw [mergeAddr] at member
      split at member
      next =>
        rcases List.mem_cons.mp member with head | tail
        · split at head
          next => exact .inl head
          next => exact .inr (head ▸ List.mem_cons_self)
        · exact .inr (List.mem_cons_of_mem _ tail)
      next =>
        rcases List.mem_cons.mp member with head | tail
        · exact .inr (head ▸ List.mem_cons_self)
        · rcases ih tail with same | later
          · exact .inl same
          · exact .inr (List.mem_cons_of_mem _ later)

/-- Merging keeps the address strings and adds at most one. -/
theorem mergeAddr_addresses (address : PubAddr) (entries : List PubAddr) :
    (mergeAddr address entries).map PubAddr.address =
      if address.address ∈ entries.map PubAddr.address then entries.map PubAddr.address
      else entries.map PubAddr.address ++ [address.address] := by
  induction entries with
  | nil => rfl
  | cons entry rest ih =>
      rw [mergeAddr]
      by_cases same : entry.same address
      · have equal : entry.address = address.address := by simpa [PubAddr.same] using same
        have listed : address.address ∈ (entry :: rest).map PubAddr.address := by simp [equal]
        rw [if_pos same, if_pos listed]
        split
        · rw [List.map_cons, List.map_cons, equal]
        · rfl
      · have different : address.address ≠ entry.address := by
          intro equal
          exact same (by simp [PubAddr.same, equal])
        rw [if_neg same, List.map_cons, ih]
        simp only [List.map_cons, List.mem_cons, different, false_or]
        split
        · rfl
        · rfl

/-- A new address goes to the end. -/
theorem mergeAddr_of_new {address : PubAddr} {entries : List PubAddr}
    (new : address.address ∉ entries.map PubAddr.address) :
    mergeAddr address entries = entries ++ [address] := by
  induction entries with
  | nil => rfl
  | cons entry rest ih =>
      simp only [List.map_cons, List.mem_cons, not_or] at new
      have different : ¬(entry.same address = true) := by
        simp only [PubAddr.same, decide_eq_true_eq]
        exact fun equal => new.1 equal.symm
      rw [mergeAddr, if_neg different, ih new.2, List.cons_append]

theorem Sound.addAddr {self : Node} (sound : self.Sound platform) {address : PubAddr}
    (listed : address.Listed platform) : (self.addAddr address).Sound platform := by
  constructor
  · exact sound.addressed
  · exact sound.distinct
  · exact sound.generated
  · exact sound.ownDistinct
  · intro entry member
    simp only [Node.addAddr] at member
    split at member
    next => exact sound.listed entry member
    next named =>
      rcases mem_mergeAddr member with rfl | old
      · exact ⟨listed, named⟩
      · exact sound.listed entry old
  · simp only [Node.addAddr]
    split
    next => exact sound.listedDistinct
    next =>
      rw [mergeAddr_addresses]
      split
      next => exact sound.listedDistinct
      next new =>
        apply List.Nodup.append sound.listedDistinct (List.nodup_singleton _)
        intro string old fresh
        exact new (List.mem_singleton.mp fresh ▸ old)

/-- What related lists carry over to each other. -/
theorem forall_of_forall₂ {α : Type} {related : α → α → Prop} {property : α → Prop}
    {left right : List α} (pairs : List.Forall₂ related left right)
    (keeps : ∀ a b, related a b → property a → property b)
    (all : ∀ a ∈ left, property a) : ∀ b ∈ right, property b := by
  induction pairs with
  | nil =>
      intro b member
      cases member
  | cons head _ ih =>
      intro b member
      rcases List.mem_cons.mp member with rfl | later
      · exact keeps _ _ head (all _ List.mem_cons_self)
      · exact ih (fun a inLeft => all a (List.mem_cons_of_mem _ inLeft)) b later

/-- Values that related elements share. -/
theorem map_eq_of_forall₂ {α β : Type} {related : α → α → Prop} {value : α → β}
    {left right : List α} (pairs : List.Forall₂ related left right)
    (same : ∀ a b, related a b → value b = value a) : right.map value = left.map value := by
  induction pairs with
  | nil => rfl
  | cons head _ ih => rw [List.map_cons, List.map_cons, same _ _ head, ih]

/-- Values that the picked parts of related elements share. -/
theorem filterMap_eq_of_forall₂ {α β γ : Type} {related : α → α → Prop} {pick : α → Option β}
    {value : β → γ} {left right : List α} (pairs : List.Forall₂ related left right)
    (same : ∀ a b, related a b → (pick b).map value = (pick a).map value) :
    (right.filterMap pick).map value = (left.filterMap pick).map value := by
  rw [List.map_filterMap, List.map_filterMap]
  induction pairs with
  | nil => rfl
  | cons head _ ih => rw [List.filterMap_cons, List.filterMap_cons, same _ _ head, ih]

theorem Sound.update {self : Node} (sound : self.Sound platform) {pubAddresses : List PubAddr}
    (updated : List.Forall₂ (PubAddr.Updated platform) self.pubAddresses pubAddresses) :
    Sound platform { self with pubAddresses } := by
  constructor
  · exact sound.addressed
  · exact sound.distinct
  · exact sound.generated
  · exact sound.ownDistinct
  · apply forall_of_forall₂ updated _ sound.listed
    rintro entry entry' changed ⟨listed, named⟩
    exact ⟨changed.listed listed, by rwa [changed.kept.address]⟩
  · have addresses := map_eq_of_forall₂ updated fun entry entry' changed => changed.kept.address
    simp only [addresses]
    exact sound.listedDistinct

/-! ## The own addresses -/

theorem Sound.addPrivAddr {self : Node} (sound : self.Sound platform) {own : Addr}
    (generated : own.Generated platform) : (self.addPrivAddr own).Sound platform := by
  constructor
  · exact sound.addressed
  · exact sound.distinct
  · intro other member
    simp only [Node.addPrivAddr] at member
    split at member
    next => exact sound.generated other member
    next named =>
      split at member
      next => exact sound.generated other member
      next =>
        rcases List.mem_append.mp member with old | new
        · exact sound.generated other old
        · rw [List.mem_singleton.mp new]
          exact ⟨generated, named⟩
  · simp only [Node.addPrivAddr]
    split
    next => exact sound.ownDistinct
    next =>
      split
      next => exact sound.ownDistinct
      next absent =>
        rw [List.map_append, List.map_singleton]
        apply List.Nodup.append sound.ownDistinct (List.nodup_singleton _)
        intro string old fresh
        obtain ⟨entry, member, rfl⟩ := List.mem_map.mp old
        apply absent
        rw [List.any_eq_true]
        exact ⟨entry, member, by simpa [PubAddr.same] using List.mem_singleton.mp fresh⟩
  · exact sound.listed
  · exact sound.listedDistinct

theorem Sound.publish {self : Node} (sound : self.Sound platform) {privAddresses : List Addr}
    (noted : List.Forall₂ (fun own own' : Addr =>
      ∃ request, own' = own.setLastPubKeyRequest request) self.privAddresses privAddresses) :
    Sound platform { self with privAddresses } := by
  constructor
  · exact sound.addressed
  · exact sound.distinct
  · apply forall_of_forall₂ noted _ sound.generated
    rintro own _ ⟨request, rfl⟩ ⟨generated, named⟩
    exact ⟨generated.setLastPubKeyRequest request, named⟩
  · have addresses : privAddresses.map (fun own => own.base.address) =
        self.privAddresses.map fun own => own.base.address := by
      apply map_eq_of_forall₂ noted
      rintro own _ ⟨request, rfl⟩
      rfl
    simp only [addresses]
    exact sound.ownDistinct
  · exact sound.listed
  · exact sound.listedDistinct

/-! ## Changes keep the invariant -/

theorem Sound.agrees {self after : Node} (sound : self.Sound platform)
    (agrees : self.Agrees after) : after.Sound platform := by
  constructor
  · rw [agrees.sharedObj]
    exact sound.addressed
  · rw [agrees.sharedObj]
    exact sound.distinct
  · rw [agrees.privAddresses]
    exact sound.generated
  · rw [agrees.privAddresses]
    exact sound.ownDistinct
  · rw [agrees.pubAddresses]
    exact sound.listed
  · rw [agrees.pubAddresses]
    exact sound.listedDistinct

theorem Sound.change {self after : Node} (sound : self.Sound platform)
    (change : Change platform self after) : after.Sound platform := by
  cases change with
  | share buffer payload storable => exact sound.share buffer storable
  | learn address listed => exact sound.addAddr listed
  | update pubAddresses updated => exact sound.update updated
  | adopt own generated => exact sound.addPrivAddr generated
  | publish privAddresses noted => exact sound.publish noted
  | other _ agrees => exact sound.agrees agrees

theorem Sound.changes {self after : Node} (sound : self.Sound platform)
    (changes : Changes platform self after) : after.Sound platform := by
  induction changes with
  | refl => exact sound
  | tail _ change ih => exact ih.change change

/-- Stored payloads stay stored. -/
theorem Change.stored {self after : Node} (change : Change platform self after)
    {payload : UString} (stored : self.sharedObj.Stored payload) :
    after.sharedObj.Stored payload := by
  obtain ⟨i, node, member, equal⟩ := stored
  cases change with
  | share buffer other storable =>
      exact ⟨i, node, HashTable.mem_insert_of_mem _ _ _ _ member, equal⟩
  | learn => exact ⟨i, node, member, equal⟩
  | update => exact ⟨i, node, member, equal⟩
  | adopt => exact ⟨i, node, member, equal⟩
  | publish => exact ⟨i, node, member, equal⟩
  | other _ agrees => exact ⟨i, node, by rwa [agrees.sharedObj], equal⟩

theorem Changes.stored {self after : Node} (changes : Changes platform self after)
    {payload : UString} (stored : self.sharedObj.Stored payload) :
    after.sharedObj.Stored payload := by
  induction changes with
  | refl => exact stored
  | tail _ change ih => exact change.stored ih

/-- Announced hashes stay announced. -/
theorem Changes.newInv {self after : Node} (changes : Changes platform self after) :
    self.newInv <+: after.newInv := by
  induction changes with
  | refl => exact List.prefix_rfl
  | tail _ change ih =>
      cases change with
      | share | learn | update | adopt | publish => exact ih
      | other _ _ newInv => exact ih.trans newInv

end Node

end BitMRC

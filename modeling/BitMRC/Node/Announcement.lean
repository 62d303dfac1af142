import BitMRC.Address.Sealing
import BitMRC.Node.Connection
import BitMRC.Utils.HashTableMap

/-!
# The inventory that a new peer is told

The handler of `verack` sends the tags of all shared objects in packets of at most
50000.  Its cursor counts all tags while the bound on it is that of one packet, so that
it gets past the first packet only when there is nothing left.
-/

namespace BitMRC

open Foundation UString

variable {platform : Platform}

/-! ## Packets that can be sent -/

/-- A packet whose length is that of its payload can be sent. -/
theorem Packet.exists_sendData {packet : Packet}
    (size : packet.length.toInt32.toInt = packet.messagePayload.length) :
    ∃ bytes, packet.sendData = .ok bytes := by
  have short := Packet.payload_short size
  have inside : (cStr packet.command.toUString).length ≤ 12 := by
    have front := (@List.takeWhile_sublist _ packet.command.toUString
      fun byte => decide (byte ≠ 0)).length_le
    rwa [packet.command.toUString_length] at front
  have padded : (12 : Int) = (cStr packet.command.toUString ++
      List.replicate (12 - (cStr packet.command.toUString).length) 0).length := by
    rw [List.length_append, List.length_replicate]
    omega
  unfold sendData
  simp only [SocketUString.sendUstring_eq _ padded (by simp only [intLimit]; omega), bind,
    Except.bind, SocketUString.sendUstring_eq _ size short]
  exact ⟨_, rfl⟩

/-- A received packet has the payload that its length says. -/
theorem Packet.receive_length {cut : Exn} {ending : Ending} {received : UString}
    {start stop : Nat} {packet : Packet}
    (read : receive cut ending received start = .ok (packet, stop)) :
    packet.length.toInt32.toInt = packet.messagePayload.length := by
  unfold receive at read
  obtain ⟨magic, _, _, read⟩ := Cursor.bind_eq_ok.mp read
  obtain ⟨command, _, _, read⟩ := Cursor.bind_eq_ok.mp read
  obtain ⟨length, _, _, read⟩ := Cursor.bind_eq_ok.mp read
  iterate 4 obtain ⟨_, _, _, read⟩ := Cursor.bind_eq_ok.mp read
  obtain ⟨messagePayload, _, readPayload, read⟩ := Cursor.bind_eq_ok.mp read
  cases read
  simp only [Int32.toInt32_toUInt32]
  unfold SocketUString.recvUstring at readPayload
  split at readPayload
  next zero =>
    cases readPayload
    exact zero
  split at readPayload
  next => cases readPayload
  split at readPayload
  next inside =>
    cases readPayload
    rw [List.length_take, List.length_drop]
    omega
  next => cases readPayload

theorem Packet.getCommand_length {ending : Ending} {received : UString} {start stop : Nat}
    {packet : Packet} (read : getCommand ending received start = .ok (packet, stop)) :
    packet.length.toInt32.toInt = packet.messagePayload.length :=
  receive_length read

theorem Node.setChecksum_length (packet : Packet)
    (short : packet.messagePayload.length < intLimit) :
    (setChecksumLenghtMagic platform packet).length.toInt32.toInt =
      (setChecksumLenghtMagic platform packet).messagePayload.length := by
  simp only [intLimit] at short
  simp only [setChecksumLenghtMagic, UInt32.toInt32_ofNat']
  exact Int32.toInt_ofNat_of_lt short

namespace Node

variable {draws : Draws platform} {conn : Connection}

theorem exists_send {packet : Packet}
    (size : packet.length.toInt32.toInt = packet.messagePayload.length) (conn : Connection) :
    ∃ after, conn.send packet = .ok after := by
  obtain ⟨bytes, sent⟩ := Packet.exists_sendData size
  exact ⟨_, by rw [Connection.send, sent]; rfl⟩

/-! ## The loops -/

/-- The inner loop stops at the end of the inventory or of the first 50000 tags. -/
theorem fillInv_eq (inventory : List (Block 32)) (i : Nat)
    (inside : i ≤ min 50000 inventory.length) :
    fillInv inventory i = ((inventory.take 50000).drop i, min 50000 inventory.length) := by
  induction i using fillInv.induct inventory with
  | case1 i bound tags last _ ih =>
      obtain ⟨chunk, more⟩ := bound
      have tail := ih (by omega)
      rw [fillInv, dif_pos ⟨chunk, more⟩, tail]
      have first : i < (inventory.take 50000).length := by
        rw [List.length_take]
        omega
      rw [List.drop_eq_getElem_cons first, List.getElem_take]
  | case2 i outside =>
      have last : i = min 50000 inventory.length := by omega
      rw [fillInv, dif_neg outside, List.drop_of_length_le]
      · rw [last]
      · rw [List.length_take]
        omega

/-- The payload of a packet of few enough tags. -/
theorem inventoryPayload_short {tags : List (Block 32)} (few : tags.length ≤ 50000) :
    (inventoryPayload tags).length < intLimit := by
  have count := appendVarIntB_length_le (UInt64.ofNat tags.length)
  rw [inventoryPayload_length]
  simp only [intLimit]
  omega

/-- Such a packet can be sent, and its receiver reads these tags. -/
theorem invPacket_length {tags : List (Block 32)} (few : tags.length ≤ 50000) :
    (invPacket draws tags).length.toInt32.toInt = (invPacket draws tags).messagePayload.length :=
  setChecksum_length _ (inventoryPayload_short few)

theorem ofPacket_invPacket {tags : List (Block 32)} (few : tags.length ≤ 50000) :
    ∃ read, PacketInv.ofPacket (invPacket draws tags) = .ok read ∧ read.inventory = tags := by
  have decoded : readInventory.value (invPacket draws tags).messagePayload 0 = .ok tags :=
    readInventory_payload (inventoryPayload_short few)
  refine ⟨{ (invPacket draws tags).copy with inventory := tags }, ?_, rfl⟩
  rw [PacketInv.ofPacket, decoded]
  rfl

/-- With few tags there is one round. -/
theorem sendInventory_few {inventory : List (Block 32)} (few : inventory.length ≤ 50000)
    (fuel : Nat) : sendInventory draws inventory (fuel + 1) 0 conn =
      (conn.send (invPacket draws inventory)).map some := by
  have round := fillInv_eq inventory 0 (Nat.zero_le _)
  rw [List.drop_zero, List.take_of_length_le few, Nat.min_eq_right few] at round
  rw [sendInventory, round]
  cases sent : conn.send (invPacket draws inventory) with
  | error failure => simp [sent, bind, Except.bind, Except.map]
  | ok after => simp [sent, bind, Except.bind, Except.map, pure, Except.pure]

/-- With more the loop sends on for ever: behind the first packet the cursor stays where
it is, at 50000. -/
theorem sendInventory_many {inventory : List (Block 32)} (many : 50000 < inventory.length)
    (fuel : Nat) {i : Nat} (inside : i ≤ 50000) :
    sendInventory draws inventory fuel i conn = .ok none := by
  induction fuel generalizing i conn with
  | zero => rfl
  | succ fuel ih =>
      have round := fillInv_eq inventory i (by omega)
      rw [Nat.min_eq_left (Nat.le_of_lt many)] at round
      have few : ((inventory.take 50000).drop i).length ≤ 50000 := by
        rw [List.length_drop, List.length_take]
        omega
      obtain ⟨after, sent⟩ := exists_send (@invPacket_length _ draws _ few) conn
      have unfinished : ¬(50000 = inventory.length) := by omega
      rw [sendInventory, round]
      simp only [sent, bind, Except.bind, if_neg unfinished]
      exact ih (Nat.le_refl _)

/-! ## The handler -/

/-- The acknowledgement, no addresses and packets of at most 50000 tags were sent, and
their receiver reads `tags` in them, each once. -/
def Announces (draws : Draws platform) (conn : Connection) (packet : Packet)
    (tags : List (Block 32)) (after : Connection) : Prop :=
  ∃ (invs : List PacketInv) (sent : Connection),
    conn.sendAll ((PacketVerack.ofPacket packet).toPacket :: emptyAddr draws ::
      invs.map PacketInv.toPacket) = .ok sent ∧
    after = { sent with state := 2 } ∧
    (∀ inv ∈ invs, inv.inventory.length ≤ 50000 ∧
      ∃ read, PacketInv.ofPacket inv.toPacket = .ok read ∧ read.inventory = inv.inventory) ∧
    invs.flatMap PacketInv.inventory = tags

/-- The handler up to its loops. -/
theorem handleVerack_eq (self : Node) {packet : Packet}
    (size : packet.length.toInt32.toInt = packet.messagePayload.length) :
    ∃ between, conn.sendAll [(PacketVerack.ofPacket packet).toPacket, emptyAddr draws] =
        .ok between ∧
      ∀ fuel, self.handleVerack draws fuel conn packet =
        (sendInventory draws (self.inventory platform) fuel 0 between).map
          (Option.map fun conn => { conn with state := 2 }) := by
  obtain ⟨first, sentFirst⟩ := @exists_send (PacketVerack.ofPacket packet).toPacket size conn
  obtain ⟨between, sentSecond⟩ := @exists_send (emptyAddr draws)
    (setChecksum_length _ (show ([0] : UString).length < intLimit by decide)) first
  refine ⟨between, ?_, ?_⟩
  · simp [Connection.sendAll, sentFirst, sentSecond, bind, Except.bind, pure, Except.pure]
  · intro fuel
    simp only [handleVerack, sentFirst, sentSecond, bind, Except.bind]
    cases sendInventory draws (self.inventory platform) fuel 0 between with
    | error failure => rfl
    | ok ended => cases ended <;> rfl

theorem handleVerack_few {self : Node} {packet : Packet}
    (size : packet.length.toInt32.toInt = packet.messagePayload.length)
    (few : (self.inventory platform).length ≤ 50000) :
    ∃ after, (∀ fuel, self.handleVerack draws (fuel + 1) conn packet = .ok (some after)) ∧
      Announces draws conn packet (self.inventory platform) after := by
  obtain ⟨between, sentBefore, handled⟩ := @handleVerack_eq _ draws conn self _ size
  generalize self.inventory platform = tags at few handled ⊢
  obtain ⟨sent, sentInv⟩ := exists_send (@invPacket_length _ draws _ few) between
  refine ⟨{ sent with state := 2 }, ?_, [⟨invPacket draws tags, tags⟩], sent, ?_, rfl, ?_, ?_⟩
  · intro fuel
    rw [handled, sendInventory_few few, sentInv]
    rfl
  · have both : conn.sendAll ([(PacketVerack.ofPacket packet).toPacket, emptyAddr draws] ++
        [invPacket draws tags]) = .ok sent := by
      rw [Connection.sendAll_concat]
      exact bind_eq_ok.mpr ⟨between, sentBefore, sentInv⟩
    exact both
  · intro inv member
    rw [List.mem_singleton.mp member]
    exact ⟨few, ofPacket_invPacket few⟩
  · simp

theorem handleVerack_many {self : Node} {packet : Packet}
    (size : packet.length.toInt32.toInt = packet.messagePayload.length)
    (many : 50000 < (self.inventory platform).length) (fuel : Nat) :
    self.handleVerack draws fuel conn packet = .ok none := by
  obtain ⟨between, _, handled⟩ := @handleVerack_eq _ draws conn self _ size
  rw [handled, sendInventory_many many fuel (Nat.zero_le _)]
  rfl

/-- The handler announces the first 32 bytes of the hashes of all shared objects and
returns exactly when one packet is enough for them. -/
theorem handleVerack_announces_iff {ending : Ending} {received : UString} {start stop : Nat}
    {packet : Packet}
    (read : Packet.getCommand ending received start = .ok (packet, stop)) (self : Node)
    (draws : Draws platform) (conn : Connection) :
    (∃ fuel after, self.handleVerack draws fuel conn packet = .ok (some after) ∧
      Announces draws conn packet
        (self.sharedObj.toList.map fun cur => platform.cBytes cur.hash 0 32) after) ↔
    self.sharedObj.toList.length ≤ 50000 := by
  have size := Packet.getCommand_length read
  have count : (self.inventory platform).length = self.sharedObj.toList.length :=
    List.length_map _
  rw [← count]
  constructor
  · rintro ⟨fuel, after, returned, _⟩
    by_contra many
    rw [handleVerack_many size (Nat.lt_of_not_le many)] at returned
    cases returned
  · intro few
    obtain ⟨after, returned, announces⟩ := handleVerack_few size few
    exact ⟨1, after, returned 0, announces⟩

/-! ## Samples -/

/-- A connection on which only the own version was sent. -/
def sampleConnection : Connection := ⟨0, 1, [], []⟩

/-- The memory that a version packet starts from. -/
def sampleVersion : PacketVersion where
  toPacket := Draws.sample.object.toPacket
  version := 0
  services := 0
  timestamp := 0
  addrRecv := ⟨0, 0, 0, List.replicate 16 0, 0⟩
  addrFrom := ⟨0, 0, 0, List.replicate 16 0, 0⟩
  nonce := 0
  userAgent := []
  streamNumbers := []

/-- The acknowledgement of a version. -/
def sampleVerack : Frame :=
  { Frame.hiddenByte with checksum := ⟨[0xcf, 0x83, 0xe1, 0x35], rfl⟩ }

/-- Payloads of zeros, from 22 bytes on: they decode as objects. -/
def samplePayloads (count : Nat) : List UString :=
  (List.range count).map fun n => List.replicate (22 + n) 0

/-- A node that shares so many objects. -/
def sampleSharing (count : Nat) : Node := {
  Node.new with
  sharedObj := HashTable.fill (hashF [])
    (fun payload => (inventoryHash Platform.sample payload).toUString) (samplePayloads count) }

theorem sampleSharing_length (count : Nat) :
    (sampleSharing count).sharedObj.toList.length = count := by
  have holds := @HashTable.holds_fill _ (hashF [])
    (fun payload => (inventoryHash Platform.sample payload).toUString) _ (samplePayloads count)
  have once : (samplePayloads count).Nodup := by
    apply List.Nodup.map _ List.nodup_range
    intro n m same
    have lengths := congrArg List.length same
    simp only [List.length_replicate] at lengths
    omega
  have entries := holds.toList_perm.length_eq
  rw [List.length_map, ContentMap.length_insertAll, List.toFinset_card_of_nodup once,
    samplePayloads, List.length_map, List.length_range] at entries
  exact entries

/-- With 50001 objects the handler never returns. -/
theorem announcement_endless_sample : ∃ packet stop,
    Packet.getCommand .closed (sampleVerack.bytes ++ []) 0 = .ok (packet, stop) ∧
      ∀ fuel, (sampleSharing 50001).handleVerack Draws.sample fuel sampleConnection packet =
        .ok none := by
  have read := sampleVerack.getCommand_bytes .closed []
  refine ⟨_, _, read, handleVerack_many (Packet.getCommand_length read) ?_⟩
  rw [inventory, List.length_map, sampleSharing_length]
  decide

/-- Payloads with three nonces. -/
def sampleShared : List UString :=
  [1, 2, 3].map fun nonce => nonceBytes nonce ++ List.replicate 14 0

/-- A node that shares three objects announces them. -/
theorem handleVerack_announces_iff_sample : ∃ self packet stop fuel after tags,
    self = { Node.new with
      sharedObj := HashTable.fill (hashF [])
        (fun payload => (inventoryHash Platform.sample payload).toUString) sampleShared } ∧
    Packet.getCommand .closed (sampleVerack.bytes ++ []) 0 = .ok (packet, stop) ∧
    self.handleVerack Draws.sample fuel sampleConnection packet = .ok (some after) ∧
    Announces Draws.sample sampleConnection packet tags after ∧
    tags.Perm (sampleShared.map (inventoryHash Platform.sample)) := by
  have holds := @HashTable.holds_fill _ (hashF [])
    (fun payload => (inventoryHash Platform.sample payload).toUString) _ sampleShared
  have entries := holds.toList_perm
  have contents : (ContentMap.empty.insertAll sampleShared).contents = sampleShared := by
    decide +kernel
  rw [contents] at entries
  have read := sampleVerack.getCommand_bytes .closed []
  obtain ⟨fuel, after, returned, announces⟩ := (handleVerack_announces_iff read
    { Node.new with
      sharedObj := HashTable.fill (hashF [])
        (fun payload => (inventoryHash Platform.sample payload).toUString) sampleShared }
    Draws.sample sampleConnection).mpr (by
      rw [entries.length_eq, List.length_map]
      decide)
  refine ⟨_, _, _, fuel, after, _, rfl, read, returned, announces, ?_⟩
  have tags := entries.map fun cur => Platform.sample.cBytes cur.hash 0 32
  rw [List.map_map] at tags
  refine tags.trans (List.Perm.of_eq (List.map_congr_left fun payload _ => ?_))
  exact Platform.sample.cBytes_block _

end Node

end BitMRC

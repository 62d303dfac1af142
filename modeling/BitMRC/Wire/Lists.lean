import BitMRC.Utils.UStringBounds
import BitMRC.Wire.Packets

/-!
# Packets that carry lists

`packet_addr`, `packet_inv` and `packet_getdata` write the size of their list and then
its elements.  Read back, the list is the same as long as the cursor, an `unsigned int`,
does not wrap around.
-/

namespace BitMRC

open Foundation UString

/-! ## `decodeData` -/

namespace PacketAddr

/-- `decodeData`, behind what the list held before. -/
def decodeData (packet : PacketAddr) : Except Exn PacketAddr := do
  let addrList ← (readSized readAddress).value packet.messagePayload 0
  return { packet with addrList := packet.addrList ++ addrList }

theorem decodeData_eq_ok {frame : Packet} {decoded : PacketAddr} :
    decodeData ⟨frame, []⟩ = .ok decoded ↔
      (readSized readAddress).value frame.messagePayload 0 = .ok decoded.addrList ∧
        decoded.toPacket = frame := by
  rw [decodeData, bind_eq_ok]
  constructor
  · rintro ⟨addrList, read, same⟩
    cases same
    exact ⟨read, rfl⟩
  · rintro ⟨read, rfl⟩
    exact ⟨decoded.addrList, read, rfl⟩

end PacketAddr

namespace PacketInv

/-- `decodeData`, behind what the list held before. -/
def decodeData (packet : PacketInv) : Except Exn PacketInv := do
  let inventory ← readInventory.value packet.messagePayload 0
  return { packet with inventory := packet.inventory ++ inventory }

theorem decodeData_eq_ok {frame : Packet} {decoded : PacketInv} :
    decodeData ⟨frame, []⟩ = .ok decoded ↔
      readInventory.value frame.messagePayload 0 = .ok decoded.inventory ∧
        decoded.toPacket = frame := by
  rw [decodeData, bind_eq_ok]
  constructor
  · rintro ⟨inventory, read, same⟩
    cases same
    exact ⟨read, rfl⟩
  · rintro ⟨read, rfl⟩
    exact ⟨decoded.inventory, read, rfl⟩

end PacketInv

namespace PacketGetdata

/-- `decodeData`, behind what the list held before. -/
def decodeData (packet : PacketGetdata) : Except Exn PacketGetdata := do
  let inventory ← readInventory.value packet.messagePayload 0
  return { packet with inventory := packet.inventory ++ inventory }

theorem decodeData_eq_ok {frame : Packet} {decoded : PacketGetdata} :
    decodeData ⟨frame, []⟩ = .ok decoded ↔
      readInventory.value frame.messagePayload 0 = .ok decoded.inventory ∧
        decoded.toPacket = frame := by
  rw [decodeData, bind_eq_ok]
  constructor
  · rintro ⟨inventory, read, same⟩
    cases same
    exact ⟨read, rfl⟩
  · rintro ⟨read, rfl⟩
    exact ⟨decoded.inventory, read, rfl⟩

end PacketGetdata

/-! ## Addresses -/

/-- Elements that are written with at least one byte. -/
theorem length_le_flatMap {α : Type} {encode : α → UString} (written : ∀ value, encode value ≠ [])
    (values : List α) : values.length ≤ (values.flatMap encode).length := by
  induction values with
  | nil => exact Nat.zero_le _
  | cons value rest ih =>
      have one := List.length_pos_iff.mpr (written value)
      rw [List.flatMap_cons, List.length_append, List.length_cons]
      omega

namespace PacketAddr

/-- The bytes of one address. -/
def addressBytes (address : NetworkAddress) : UString :=
  appendInt32 [] address.time.toInt32 ++ (appendInt32 [] address.stream.toInt32 ++
    (appendInt64 [] address.services.toInt64 ++
      (address.ipv6_4 ++ appendInt16 [] address.port.toInt16)))

theorem appendAddress_eq (payload : UString) (address : NetworkAddress) :
    appendAddress payload address = payload ++ addressBytes address := by
  rw [appendAddress, appendInt16_eq, appendInt64_eq, appendInt32_eq (appendInt32 payload _),
    appendInt32_eq payload, addressBytes]
  simp only [List.append_assoc]

theorem encodeData_messagePayload (packet : PacketAddr) :
    packet.encodeData.messagePayload = appendVarIntB [] (UInt64.ofNat packet.addrList.length) ++
      packet.addrList.flatMap addressBytes := by
  have run : ∀ (addresses : List NetworkAddress) (payload : UString),
      addresses.foldl appendAddress payload = payload ++ addresses.flatMap addressBytes := by
    intro addresses
    induction addresses with
    | nil => simp
    | cons address rest ih =>
        intro payload
        rw [List.foldl_cons, ih, appendAddress_eq, List.flatMap_cons, List.append_assoc]
  exact run packet.addrList _

theorem addressBytes_ne_nil (address : NetworkAddress) : addressBytes address ≠ [] := by
  simp [addressBytes, appendInt32, appendInt8]

theorem readAddress_decodes {limit : Nat} [CursorLimit limit] {address : NetworkAddress}
    (sixteen : address.ipv6_4.length = 16) :
    Cursor.Decodes limit readAddress (addressBytes address) address := by
  have port : Cursor.Decodes limit getInt16 (appendInt16 [] address.port.toInt16)
      address.port.toInt16 := getInt16_decodes _
  have packed := port.map fun port => ({
    time := address.time.toInt32.toUInt32
    stream := address.stream.toInt32.toUInt32
    services := address.services.toInt64.toUInt64
    ipv6_4 := address.ipv6_4
    port := port.toUInt16 } : NetworkAddress)
  simp only [UInt32.toUInt32_toInt32, UInt64.toUInt64_toInt64, UInt16.toUInt16_toInt16] at packed
  exact (getInt32_decodes _).bind ((getInt32_decodes _).bind ((getInt64_decodes _).bind
    ((getUstring_decodes_of_length 16 _ (by omega)).bind packed)))

/-- Addresses of 16 bytes are read back from a payload without wrap-around. -/
theorem decodeData_encodeData {packet : PacketAddr}
    (sixteen : ∀ address ∈ packet.addrList, address.ipv6_4.length = 16)
    (short : packet.encodeData.messagePayload.length < 2 ^ 32) {frame : Packet}
    (payload : frame.messagePayload = packet.encodeData.messagePayload) :
    decodeData ⟨frame, []⟩ = .ok ⟨frame, packet.addrList⟩ := by
  rw [encodeData_messagePayload] at short payload
  have long := length_le_flatMap addressBytes_ne_nil packet.addrList
  have decodes : Cursor.Decodes (2 ^ 32) (readSized readAddress)
      (appendVarIntB [] (UInt64.ofNat packet.addrList.length) ++
        packet.addrList.flatMap addressBytes) packet.addrList := by
    rw [List.length_append] at short
    exact readSized_decodes (by omega) fun address member =>
      readAddress_decodes (sixteen address member)
  have read := decodes.from_start [] (by rwa [List.append_nil])
  rw [List.append_nil, ← payload] at read
  exact decodeData_eq_ok.mpr ⟨Cursor.value_of_ok read, rfl⟩

/-- A string of 16 bytes that was cut is noticed by the port behind it. -/
theorem readAddress_sixteen {s : UString} {i stop : Nat} {address : NetworkAddress}
    (short : s.length < intLimit) (read : readAddress s i = .ok (address, stop)) :
    address.ipv6_4.length = 16 := by
  obtain ⟨time, i, _, read⟩ := Cursor.bind_eq_ok.mp read
  obtain ⟨stream, i, _, read⟩ := Cursor.bind_eq_ok.mp read
  obtain ⟨services, i, _, read⟩ := Cursor.bind_eq_ok.mp read
  obtain ⟨ipv6_4, middle, readIp, read⟩ := Cursor.bind_eq_ok.mp read
  obtain ⟨port, _, readPort, read⟩ := Cursor.bind_eq_ok.mp read
  cases read
  obtain ⟨byte, _, first, _⟩ := Cursor.bind_eq_ok.mp readPort
  have inside := (getInt8_eq_ok.mp first).1
  exact getUstring_length short (show 16 < intLimit by decide) readIp (Nat.le_of_lt inside)

end PacketAddr

/-! ## Elements and sizes -/

theorem readVector_forall {α : Type} {element : Reader α} {s : UString} {holds : α → Prop}
    (each : ∀ i value stop, element s i = .ok (value, stop) → holds value) {count start stop : Nat}
    {values : List α} (read : readVector element count s start = .ok (values, stop)) :
    ∀ value ∈ values, holds value := by
  induction count generalizing values start stop with
  | zero =>
      cases read
      simp
  | succ count ih =>
      obtain ⟨value, _, readValue, read⟩ := Cursor.bind_eq_ok.mp read
      obtain ⟨rest, _, readRest, read⟩ := Cursor.bind_eq_ok.mp read
      cases read
      rw [List.forall_mem_cons]
      exact ⟨each _ _ _ readValue, ih readRest⟩

/-- What was read from a payload has as many elements as the payload declares, and all of
them come from the reader of one element. -/
theorem readSized_declared {α : Type} {element : Reader α} {s : UString} {values : List α}
    {holds : α → Prop} (short : s.length < 2 ^ 31)
    (each : ∀ i value stop, element s i = .ok (value, stop) → holds value)
    (read : (readSized element).value s 0 = .ok values) :
    ∃ count start, declared s 0 = some (count, start) ∧
      (count < 2 ^ 63 → values.length = count) ∧ ∀ value ∈ values, holds value := by
  obtain ⟨stop, read⟩ := Cursor.value_eq_ok.mp read
  obtain ⟨size, first, readSize, readValues⟩ := Cursor.bind_eq_ok.mp read
  cases found : declared s 0 with
  | none => cases (getVarIntB_cut found (by omega)).symm.trans readSize
  | some field =>
      obtain ⟨count, start⟩ := field
      obtain ⟨_, inside⟩ := declared_start (Nat.zero_le _) found
      obtain ⟨word, readWord, value⟩ := getVarIntB_declared found (by omega)
      obtain ⟨same, _⟩ := Prod.mk.inj (Except.ok.inj (readSize.symm.trans readWord))
      refine ⟨count, start, rfl, ?_, readVector_forall each readValues⟩
      intro small
      have counted : size.toInt = count := by
        rw [same, ← value, ← Int64.toInt_ofNat_of_lt (show word.toNat < 2 ^ 63 by omega),
          ← UInt64.toInt64_ofNat', UInt64.ofNat_toNat]
      rw [readVector_length readValues, counted, Int.toNat_natCast]

/-- What the three packets write they read back from a payload without wrap-around.
Conversely every list that is read has the declared size, and its addresses have 16
bytes each. -/
theorem lists_roundTrip :
    (∀ (packet : PacketAddr) (frame : Packet),
      (∀ address ∈ packet.addrList, address.ipv6_4.length = 16) →
      packet.encodeData.messagePayload.length < 2 ^ 32 →
      frame.messagePayload = packet.encodeData.messagePayload →
      PacketAddr.decodeData ⟨frame, []⟩ = .ok ⟨frame, packet.addrList⟩) ∧
    (∀ (packet : PacketInv) (frame : Packet),
      packet.encodeData.messagePayload.length < 2 ^ 32 →
      frame.messagePayload = packet.encodeData.messagePayload →
      PacketInv.decodeData ⟨frame, []⟩ = .ok ⟨frame, packet.inventory⟩) ∧
    (∀ (packet : PacketGetdata) (frame : Packet),
      packet.encodeData.messagePayload.length < 2 ^ 32 →
      frame.messagePayload = packet.encodeData.messagePayload →
      PacketGetdata.decodeData ⟨frame, []⟩ = .ok ⟨frame, packet.inventory⟩) ∧
    (∀ (frame : Packet) (decoded : PacketAddr), frame.messagePayload.length < 2 ^ 31 →
      PacketAddr.decodeData ⟨frame, []⟩ = .ok decoded →
      ∃ count start, declared frame.messagePayload 0 = some (count, start) ∧
        (count < 2 ^ 63 → decoded.addrList.length = count) ∧
        ∀ address ∈ decoded.addrList, address.ipv6_4.length = 16) ∧
    (∀ (frame : Packet) (decoded : PacketInv), frame.messagePayload.length < 2 ^ 31 →
      PacketInv.decodeData ⟨frame, []⟩ = .ok decoded →
      ∃ count start, declared frame.messagePayload 0 = some (count, start) ∧
        (count < 2 ^ 63 → decoded.inventory.length = count)) ∧
    (∀ (frame : Packet) (decoded : PacketGetdata), frame.messagePayload.length < 2 ^ 31 →
      PacketGetdata.decodeData ⟨frame, []⟩ = .ok decoded →
      ∃ count start, declared frame.messagePayload 0 = some (count, start) ∧
        (count < 2 ^ 63 → decoded.inventory.length = count)) := by
  refine ⟨?addr, ?inv, ?getdata, ?addrSize, ?invSize, ?getdataSize⟩
  case addr => exact fun packet frame sixteen short payload =>
    PacketAddr.decodeData_encodeData sixteen short payload
  case inv =>
    intro packet frame short payload
    refine PacketInv.decodeData_eq_ok.mpr ⟨?_, rfl⟩
    rw [payload]
    exact readInventory_value short
  case getdata =>
    intro packet frame short payload
    refine PacketGetdata.decodeData_eq_ok.mpr ⟨?_, rfl⟩
    rw [payload]
    exact readInventory_value short
  case addrSize =>
    intro frame decoded short read
    exact readSized_declared short
      (fun _ _ _ => PacketAddr.readAddress_sixteen (by simpa [intLimit] using short))
      (PacketAddr.decodeData_eq_ok.mp read).1
  case invSize =>
    intro frame decoded short read
    obtain ⟨count, start, found, size, _⟩ := readSized_declared short
      (fun _ _ _ _ => True.intro) (PacketInv.decodeData_eq_ok.mp read).1
    exact ⟨count, start, found, size⟩
  case getdataSize =>
    intro frame decoded short read
    obtain ⟨count, start, found, size, _⟩ := readSized_declared short
      (fun _ _ _ _ => True.intro) (PacketGetdata.decodeData_eq_ok.mp read).1
    exact ⟨count, start, found, size⟩

/-- An `addr` packet with one address. -/
def PacketAddr.sample : PacketAddr where
  magic := 0xE9BEB4D9
  command := strncpy [] 12
  length := 0
  checksum := strncpy [] 4
  messagePayload := []
  addrList := [⟨1234567890, 1, 1, List.replicate 16 255, 8444⟩]

/-- An `inv` packet with zero tags. -/
def PacketInv.zeros (count : Nat) : PacketInv :=
  { PacketAddr.sample.toPacket with inventory := List.replicate count (strncpy [] 32) }

/-- A `getdata` packet with one tag. -/
def PacketGetdata.sample : PacketGetdata :=
  { PacketAddr.sample.toPacket with inventory := [strncpy [1, 2, 3] 32] }

theorem lists_roundTrip_sample :
    PacketAddr.decodeData ⟨PacketAddr.sample.encodeData.toPacket, []⟩ =
      .ok ⟨PacketAddr.sample.encodeData.toPacket, PacketAddr.sample.addrList⟩ ∧
    PacketInv.decodeData ⟨(PacketInv.zeros 2).encodeData.toPacket, []⟩ =
      .ok ⟨(PacketInv.zeros 2).encodeData.toPacket, (PacketInv.zeros 2).inventory⟩ ∧
    PacketGetdata.decodeData ⟨PacketGetdata.sample.encodeData.toPacket, []⟩ =
      .ok ⟨PacketGetdata.sample.encodeData.toPacket, PacketGetdata.sample.inventory⟩ ∧
    ∃ count start, declared PacketAddr.sample.encodeData.messagePayload 0 = some (count, start) ∧
      (count < 2 ^ 63 → PacketAddr.sample.addrList.length = count) ∧
      ∀ address ∈ PacketAddr.sample.addrList, address.ipv6_4.length = 16 := by
  have read := lists_roundTrip.1 PacketAddr.sample PacketAddr.sample.encodeData.toPacket
    (by decide) (by decide) rfl
  exact ⟨read, lists_roundTrip.2.1 (PacketInv.zeros 2) _ (by decide) rfl,
    lists_roundTrip.2.2.1 PacketGetdata.sample _ (by decide) rfl,
    lists_roundTrip.2.2.2.1 _ ⟨PacketAddr.sample.encodeData.toPacket, _⟩ (by decide) read⟩

/-! ## Wrap-around -/

/-- The cursor went over these bytes; behind position `2^32 - 1` comes position 0. -/
structure Passed (s : UString) (start : Nat) (bytes : UString) (stop : Nat) : Prop where
  stops : stop = (start + bytes.length) % 2 ^ 32
  holds : ∀ index < bytes.length, s[(start + index) % 2 ^ 32]? = bytes[index]?

section Passed

variable {s : UString} {start middle stop : Nat}

theorem Passed.nil (small : start < 2 ^ 32) : Passed s start [] start :=
  ⟨(Nat.mod_eq_of_lt small).symm, fun _ inside => absurd inside (Nat.not_lt_zero _)⟩

theorem Passed.append {first second : UString} (left : Passed s start first middle)
    (right : Passed s middle second stop) : Passed s start (first ++ second) stop := by
  obtain ⟨rfl, first_holds⟩ := left
  obtain ⟨rfl, second_holds⟩ := right
  constructor
  · rw [List.length_append]
    omega
  · intro index inside
    rw [List.length_append] at inside
    by_cases early : index < first.length
    · rw [first_holds index early, List.getElem?_append_left early]
    · have late := Nat.le_of_not_lt early
      have position : ((start + first.length) % 2 ^ 32 + (index - first.length)) % 2 ^ 32 =
          (start + index) % 2 ^ 32 := by
        omega
      rw [List.getElem?_append_right late, ← second_holds _ (by omega), position]

theorem getInt8_passed {byte : UInt8} (small : start < 2 ^ 32)
    (read : getInt8 s start = .ok (byte, stop)) : Passed s start [byte] stop := by
  obtain ⟨_, found, rfl⟩ := getInt8_eq_ok.mp read
  constructor
  · unfold advance
    simp only [List.length_singleton]
    omega
  · intro index inside
    have first : index = 0 := Nat.lt_one_iff.mp inside
    rw [first, Nat.add_zero, Nat.mod_eq_of_lt small, found]
    rfl

theorem readBlock_passed {size : Nat} {block : Block size} (small : start < 2 ^ 32)
    (read : readBlock size s start = .ok (block, stop)) :
    Passed s start block.toUString stop := by
  induction size generalizing start with
  | zero =>
      cases read
      exact Passed.nil small
  | succ size ih =>
      obtain ⟨byte, middle, readByte, read⟩ := Cursor.bind_eq_ok.mp read
      obtain ⟨rest, _, readRest, read⟩ := Cursor.bind_eq_ok.mp read
      cases read
      have first := getInt8_passed small readByte
      have inside : middle < 2 ^ 32 := by
        rw [first.stops]
        exact Nat.mod_lt _ (by decide)
      exact first.append (ih inside readRest)

theorem readVector_passed {size count : Nat} {blocks : List (Block size)} (small : start < 2 ^ 32)
    (read : readVector (readBlock size) count s start = .ok (blocks, stop)) :
    Passed s start (blocks.flatMap Block.toUString) stop := by
  induction count generalizing start stop blocks with
  | zero =>
      cases read
      exact Passed.nil small
  | succ count ih =>
      obtain ⟨block, middle, readBlock, read⟩ := Cursor.bind_eq_ok.mp read
      obtain ⟨rest, _, readRest, read⟩ := Cursor.bind_eq_ok.mp read
      cases read
      have first := readBlock_passed small readBlock
      have inside : middle < 2 ^ 32 := by
        rw [first.stops]
        exact Nat.mod_lt _ (by decide)
      exact first.append (ih inside readRest)

end Passed

/-- Zero tags beyond position `2^32` are read from the size in front. -/
theorem zeros_lost {count : Nat} (long : 2 ^ 27 ≤ count)
    (size : appendVarIntB [] (UInt64.ofNat count) = [254, 8, 0, 0, 0]) :
    PacketInv.decodeData ⟨(PacketInv.zeros count).encodeData.toPacket, []⟩ ≠
      .ok ⟨(PacketInv.zeros count).encodeData.toPacket, (PacketInv.zeros count).inventory⟩ := by
  intro read
  have read : readInventory.value (inventoryPayload (PacketInv.zeros count).inventory) 0 =
      .ok (PacketInv.zeros count).inventory := (PacketInv.decodeData_eq_ok.mp read).1
  obtain ⟨stop, read⟩ := Cursor.value_eq_ok.mp read
  obtain ⟨word, start, readSize, readTags⟩ := Cursor.bind_eq_ok.mp read
  have length : (PacketInv.zeros count).inventory.length = count := List.length_replicate
  have bytes : inventoryPayload (PacketInv.zeros count).inventory =
      [254, 8, 0, 0, 0] ++ (PacketInv.zeros count).inventory.flatMap Block.toUString := by
    rw [inventoryPayload_eq, length, size]
  have found : declared (inventoryPayload (PacketInv.zeros count).inventory) 0 =
      some ((UInt64.ofNat count).toNat, 5) := by
    have written := declared_appendVarIntB []
      ((PacketInv.zeros count).inventory.flatMap Block.toUString) (UInt64.ofNat count)
    rwa [size, ← bytes] at written
  obtain ⟨_, readSize', _⟩ := getVarIntB_declared found (by decide)
  cases readSize.symm.trans readSize'
  have passed := readVector_passed (by decide) readTags
  have total : ((PacketInv.zeros count).inventory.flatMap Block.toUString).length =
      32 * count := by
    have whole := inventoryPayload_length (PacketInv.zeros count).inventory
    rw [length, size, bytes, List.length_append] at whole
    exact Nat.add_left_cancel whole
  have wrapped := passed.holds (2 ^ 32 - 5) (by omega)
  have zero : ∀ byte ∈ (PacketInv.zeros count).inventory.flatMap Block.toUString, byte = 0 := by
    intro byte member
    obtain ⟨tag, tagMember, member⟩ := List.mem_flatMap.mp member
    rw [List.eq_of_mem_replicate tagMember] at member
    exact List.eq_of_mem_replicate member
  have first : (inventoryPayload (PacketInv.zeros count).inventory)[0]? = some 254 := by
    rw [bytes]
    rfl
  rw [show (5 + (2 ^ 32 - 5)) % 2 ^ 32 = 0 from rfl, first] at wrapped
  have byte := zero 254 (List.mem_of_getElem? wrapped.symm)
  cases byte

/-- With `2^27` tags the payload has five bytes more than the cursor can count. -/
theorem not_lists_roundTrip :
    PacketInv.decodeData ⟨(PacketInv.zeros (2 ^ 27)).encodeData.toPacket, []⟩ ≠
      .ok ⟨(PacketInv.zeros (2 ^ 27)).encodeData.toPacket,
        (PacketInv.zeros (2 ^ 27)).inventory⟩ :=
  zeros_lost (Nat.le_refl _) rfl

end BitMRC

import BitMRC.Wire.Object
import Mathlib.Data.List.TakeWhile

/-!
# The packets of the protocol

Besides objects a peer sends its version, the acknowledgement of ours, addresses of
other nodes, and lists of tags of objects that it offers or asks for.  Each typed
packet copies the packet that it is made from and decodes its payload.
-/

namespace BitMRC

open Foundation UString

/-! ## Commands -/

/-- `version`. -/
def versionName : UString := [118, 101, 114, 115, 105, 111, 110]

/-- `verack`. -/
def verackName : UString := [118, 101, 114, 97, 99, 107]

/-- `addr`. -/
def addrName : UString := [97, 100, 100, 114]

/-- `inv`. -/
def invName : UString := [105, 110, 118]

/-- `getdata`. -/
def getdataName : UString := [103, 101, 116, 100, 97, 116, 97]

/-- `object`. -/
def objectName : UString := [111, 98, 106, 101, 99, 116]

/-- `pong`. -/
def pongName : UString := [112, 111, 110, 103]

/-- `strcpy` of a name into the command of a packet; what was behind it stays there. -/
def Packet.setCommand (packet : Packet) (name : UString) (fits : (cStr name).length < 12) :
    Packet := {
  packet with
  command := ⟨strcpy packet.command.toUString name, by
    have twelve := packet.command.toUString_length
    simp only [strcpy, List.length_append, List.length_drop, List.length_singleton]
    omega⟩ }

/-! ## Repeated fields -/

/-- An array of bytes, one `getInt8` after the other. -/
def readBlock : (size : Nat) → Reader (Block size)
  | 0 => return ⟨[], rfl⟩
  | size + 1 => do
      let byte ← getInt8
      let rest ← readBlock size
      return ⟨byte :: rest.toUString, by simp⟩

/-- A vector of `count` elements. -/
def readVector {α : Type} (element : Reader α) : Nat → Reader (List α)
  | 0 => return []
  | count + 1 => do
      let value ← element
      let rest ← readVector element count
      return value :: rest

/-- A vector with its size in front; nothing is read for a negative size. -/
def readSized {α : Type} (element : Reader α) : Reader (List α) := do
  let size ← getVarIntB
  readVector element size.toInt.toNat

/-! ## `class packet_version` -/

/-- `struct Network_address`. -/
structure NetworkAddress where
  time : UInt32
  stream : UInt32
  services : UInt64
  ipv6_4 : UString
  port : UInt16
  deriving DecidableEq

structure PacketVersion extends Packet where
  version : Int32
  services : UInt64
  timestamp : UInt64
  addrRecv : NetworkAddress
  addrFrom : NetworkAddress
  nonce : UInt64
  userAgent : UString
  streamNumbers : UString
  deriving DecidableEq

namespace PacketVersion

/-- The address of one of the two nodes, without a time and a stream. -/
def readAddress (address : NetworkAddress) : Reader NetworkAddress := do
  let services ← getInt64
  let ipv6_4 ← readBlock 16
  let port ← getInt16
  return {
    address with
    services := services.toUInt64
    ipv6_4 := ipv6_4.toUString
    port := port.toUInt16 }

/-- `substr(i, length())`, the end of `decodeData`. -/
def readStreams : Reader UString := fun s i =>
  match substr s i s.length with
  | .ok streamNumbers => .ok (streamNumbers, i)
  | .error failure => .error failure

def readData (packet : PacketVersion) : Reader PacketVersion := do
  let version ← getInt32
  let services ← getInt64
  let timestamp ← getInt64
  let addrRecv ← readAddress packet.addrRecv
  let addrFrom ← readAddress packet.addrFrom
  let nonce ← getInt64
  let userAgent ← getVarUstringB
  let streamNumbers ← readStreams
  return {
    packet with
    version
    services := services.toUInt64
    timestamp := timestamp.toUInt64
    addrRecv
    addrFrom
    nonce := nonce.toUInt64
    userAgent
    streamNumbers }

def decodeData (packet : PacketVersion) : Except Exn PacketVersion :=
  (readData packet).value packet.messagePayload 0

/-- `packet_version::packet_version(Packet)`; `memory` is what the members hold before. -/
def ofPacket (memory : PacketVersion) (packet : Packet) : Except Exn PacketVersion :=
  decodeData { memory with toPacket := packet.copy }

end PacketVersion

/-! ## `class packet_verack` -/

structure PacketVerack extends Packet

namespace PacketVerack

def ofPacket (packet : Packet) : PacketVerack := ⟨packet.copy⟩

end PacketVerack

/-! ## `class packet_addr` -/

structure PacketAddr extends Packet where
  addrList : List NetworkAddress
  deriving DecidableEq

namespace PacketAddr

/-- One round of the loop of `decodeData`. -/
def readAddress : Reader NetworkAddress := do
  let time ← getInt32
  let stream ← getInt32
  let services ← getInt64
  let ipv6_4 ← getUstring 16
  let port ← getInt16
  return {
    time := time.toUInt32
    stream := stream.toUInt32
    services := services.toUInt64
    ipv6_4
    port := port.toUInt16 }

/-- `packet_addr::packet_addr(Packet)` with its `decodeData`. -/
def ofPacket (packet : Packet) : Except Exn PacketAddr := do
  let addrList ← (readSized readAddress).value packet.messagePayload 0
  return { packet.copy with addrList }

/-- What one address adds to the payload. -/
def appendAddress (payload : UString) (address : NetworkAddress) : UString :=
  let payload := appendInt32 payload address.time.toInt32
  let payload := appendInt32 payload address.stream.toInt32
  let payload := appendInt64 payload address.services.toInt64
  let payload := payload ++ address.ipv6_4
  appendInt16 payload address.port.toInt16

def encodeData (packet : PacketAddr) : PacketAddr := {
  packet with
  toPacket := {
    packet.toPacket.setCommand addrName (by decide) with
    messagePayload := packet.addrList.foldl appendAddress
      (appendVarIntB [] (UInt64.ofNat packet.addrList.length)) } }

end PacketAddr

/-! ## `class packet_inv` and `class packet_getdata` -/

/-- The payload of both packets, in `decodeData`. -/
def readInventory : Reader (List (Block 32)) := readSized (readBlock 32)

/-- The payload of both packets, in `encodeData`. -/
def inventoryPayload (inventory : List (Block 32)) : UString :=
  inventory.foldl (fun payload tag => payload ++ tag.toUString)
    (appendVarIntB [] (UInt64.ofNat inventory.length))

structure PacketInv extends Packet where
  inventory : List (Block 32)
  deriving DecidableEq

namespace PacketInv

def ofPacket (packet : Packet) : Except Exn PacketInv := do
  let inventory ← readInventory.value packet.messagePayload 0
  return { packet.copy with inventory }

def encodeData (packet : PacketInv) : PacketInv := {
  packet with
  toPacket := {
    packet.toPacket.setCommand invName (by decide) with
    messagePayload := inventoryPayload packet.inventory } }

end PacketInv

structure PacketGetdata extends Packet where
  inventory : List (Block 32)
  deriving DecidableEq

namespace PacketGetdata

def ofPacket (packet : Packet) : Except Exn PacketGetdata := do
  let inventory ← readInventory.value packet.messagePayload 0
  return { packet.copy with inventory }

def encodeData (packet : PacketGetdata) : PacketGetdata := {
  packet with
  toPacket := {
    packet.toPacket.setCommand getdataName (by decide) with
    messagePayload := inventoryPayload packet.inventory } }

end PacketGetdata

/-! ## Lists of tags -/

theorem inventoryPayload_eq (inventory : List (Block 32)) : inventoryPayload inventory =
    appendVarIntB [] (UInt64.ofNat inventory.length) ++ inventory.flatMap Block.toUString := by
  have run : ∀ payload : UString,
      inventory.foldl (fun payload tag => payload ++ tag.toUString) payload =
        payload ++ inventory.flatMap Block.toUString := by
    induction inventory with
    | nil => simp
    | cons tag rest ih =>
        intro payload
        rw [List.foldl_cons, ih, List.flatMap_cons, List.append_assoc]
  exact run _

section Limit

variable {limit : Nat}

theorem readVector_decodes {α : Type} {element : Reader α} {encode : α → UString}
    {values : List α}
    (decodes : ∀ value ∈ values, Cursor.Decodes limit element (encode value) value) :
    Cursor.Decodes limit (readVector element values.length) (values.flatMap encode) values := by
  induction values with
  | nil => exact Cursor.Decodes.pure _ _
  | cons value rest ih =>
      have others := ih fun other member => decodes other (List.mem_cons_of_mem _ member)
      exact (decodes value List.mem_cons_self).bind (others.map _)

variable [CursorLimit limit]

theorem readBlock_decodes {size : Nat} (block : Block size) :
    Cursor.Decodes limit (readBlock size) block.toUString block := by
  induction size with
  | zero =>
      have empty : block.toUString = [] := List.length_eq_zero_iff.mp block.toUString_length
      rw [empty]
      exact decodes_return (Block.ext empty.symm)
  | succ size ih =>
      obtain ⟨_ | ⟨byte, bytes⟩, length⟩ := block
      · cases length
      · have rest := ih ⟨bytes, Nat.succ.inj length⟩
        exact decodes_cons (rest.map fun rest : Block size =>
          (⟨byte :: rest.toUString, by simp⟩ : Block (size + 1)))

/-- A vector with its size in front. -/
theorem readSized_decodes {α : Type} {element : Reader α} {encode : α → UString}
    {values : List α} (count : values.length < 2 ^ 63)
    (decodes : ∀ value ∈ values, Cursor.Decodes limit element (encode value) value) :
    Cursor.Decodes limit (readSized element)
      (appendVarIntB [] (UInt64.ofNat values.length) ++ values.flatMap encode) values := by
  have size : (UInt64.ofNat values.length).toInt64.toInt.toNat = values.length := by
    rw [UInt64.toInt64_ofNat', Int64.toInt_ofNat_of_lt count, Int.toNat_natCast]
  have vector := readVector_decodes decodes
  rw [← size] at vector
  exact (getVarIntB_decodes _).bind vector

end Limit

/-- The tags that were written are read back. -/
theorem readInventory_decodes {limit : Nat} [CursorLimit limit] {inventory : List (Block 32)}
    (short : inventory.length < 2 ^ 63) :
    Cursor.Decodes limit readInventory (inventoryPayload inventory) inventory := by
  rw [inventoryPayload_eq]
  exact readSized_decodes short fun tag _ => readBlock_decodes tag

theorem inventoryPayload_length (tags : List (Block 32)) : (inventoryPayload tags).length =
    (appendVarIntB [] (UInt64.ofNat tags.length)).length + 32 * tags.length := by
  have bytes : (tags.flatMap Block.toUString).length = 32 * tags.length := by
    induction tags with
    | nil => rfl
    | cons tag rest ih =>
        rw [List.flatMap_cons, List.length_append, ih, tag.toUString_length, List.length_cons]
        omega
  rw [inventoryPayload_eq, List.length_append, bytes]

/-- A payload without wrap-around is decoded to its tags. -/
theorem readInventory_value {tags : List (Block 32)}
    (short : (inventoryPayload tags).length < 2 ^ 32) :
    readInventory.value (inventoryPayload tags) 0 = .ok tags := by
  have size := inventoryPayload_length tags
  have decodes : Cursor.Decodes (2 ^ 32) readInventory (inventoryPayload tags) tags :=
    readInventory_decodes (by omega)
  have read := decodes.from_start [] (by simpa using short)
  rw [List.append_nil] at read
  exact Cursor.value_of_ok read

/-- A payload that a packet can have is decoded to its tags. -/
theorem readInventory_payload {tags : List (Block 32)}
    (short : (inventoryPayload tags).length < intLimit) :
    readInventory.value (inventoryPayload tags) 0 = .ok tags := by
  simp only [intLimit] at short
  exact readInventory_value (by omega)

/-! ## Sizes -/

theorem readBlock_takes (size : Nat) : Cursor.Takes intLimit size readFailure (readBlock size) := by
  induction size with
  | zero => exact Cursor.Takes.pure _ _ _
  | succ size ih =>
      have taken : Cursor.Takes intLimit (1 + size) readFailure (readBlock (size + 1)) :=
        getInt8_fixed.takes.bind fun byte => ih.map fun rest : Block size =>
          (⟨byte :: rest.toUString, by simp⟩ : Block (size + 1))
      rwa [Nat.add_comm 1 size] at taken

theorem readVector_takes {α : Type} {element : Reader α} {size : Nat}
    (takes : Cursor.Takes intLimit size readFailure element) (count : Nat) :
    Cursor.Takes intLimit (count * size) readFailure (readVector element count) := by
  induction count with
  | zero =>
      rw [Nat.zero_mul]
      exact Cursor.Takes.pure _ _ _
  | succ count ih =>
      have taken : Cursor.Takes intLimit (size + count * size) readFailure
          (readVector element (count + 1)) :=
        takes.bind fun value => ih.map fun rest => value :: rest
      rwa [Nat.add_comm, ← Nat.succ_mul] at taken

theorem readVector_length {α : Type} {element : Reader α} {count : Nat} {s : UString}
    {start stop : Nat} {values : List α}
    (read : readVector element count s start = .ok (values, stop)) : values.length = count := by
  induction count generalizing values start stop with
  | zero =>
      cases read
      rfl
  | succ count ih =>
      obtain ⟨value, _, _, read⟩ := Cursor.bind_eq_ok.mp read
      obtain ⟨rest, _, readRest, read⟩ := Cursor.bind_eq_ok.mp read
      cases read
      rw [List.length_cons, ih readRest]

/-- A vector is decoded exactly when all its elements are there, and otherwise bytes are
missing. -/
theorem readSized_cases {α : Type} {element : Reader α} {width : Nat}
    (takes : Cursor.Takes intLimit width readFailure element) {s : UString}
    (short : s.length < intLimit) :
    (∃ size stop values, getVarIntB s 0 = .ok (size, stop) ∧
      stop + size.toInt.toNat * width ≤ s.length ∧ values.length = size.toInt.toNat ∧
      (readSized element).value s 0 = .ok values) ∨
    (∀ size stop, getVarIntB s 0 = .ok (size, stop) →
      s.length < stop + size.toInt.toNat * width) ∧
      (readSized element).value s 0 = .error readFailure := by
  rcases getVarIntB_cases short (Nat.zero_le s.length) with ⟨size, stop, count, inside⟩ | missing
  · have vector := @readVector_takes α element width takes size.toInt.toNat s stop short inside
    by_cases room : stop + size.toInt.toNat * width ≤ s.length
    · obtain ⟨values, read⟩ := vector.1 room
      refine .inl ⟨size, stop, values, count, room, readVector_length read, ?_⟩
      apply Cursor.value_of_ok
      rw [readSized, Cursor.bind_of_ok count, read]
    · refine .inr ⟨?_, ?_⟩
      · intro other otherStop found
        cases count.symm.trans found
        exact Nat.lt_of_not_le room
      · rw [Cursor.value, readSized, Cursor.bind_of_ok count, vector.2 (Nat.lt_of_not_le room)]
  · refine .inr ⟨?_, ?_⟩
    · intro size stop found
      cases missing.symm.trans found
    · rw [Cursor.value, readSized, Cursor.bind_of_error missing]

/-- The tags that were read take up 32 bytes each. -/
theorem readInventory_length {s : UString} {inventory : List (Block 32)}
    (short : s.length < intLimit) (read : readInventory.value s 0 = .ok inventory) :
    inventory.length * 32 ≤ s.length := by
  rcases readSized_cases (readBlock_takes 32) short with
    ⟨size, stop, values, _, room, count, found⟩ | ⟨_, missing⟩
  · cases found.symm.trans read
    rw [count]
    omega
  · cases missing.symm.trans read

/-! ## Names -/

theorem cStr_setCommand (packet : Packet) (name : UString) (fits : (cStr name).length < 12) :
    cStr (packet.setCommand name fits).command.toUString = cStr name := by
  have nonzero : ∀ byte ∈ cStr name, decide (byte ≠ 0) = true := by
    intro byte member
    have copied : byte ∈ name.takeWhile (· ≠ 0) := member
    simpa using List.mem_takeWhile_imp copied
  have written : (packet.setCommand name fits).command.toUString =
      cStr name ++ 0 :: packet.command.toUString.drop (cStr name ++ [0]).length := by
    simp [Packet.setCommand, Block.toUString, strcpy]
  rw [written]
  conv_lhs => rw [cStr, List.takeWhile_append_of_pos nonzero]
  simp

end BitMRC

import BitMRC.Utils.UStringReads

/-!
# Packets and objects

A `Packet` is a frame; an `object` is a packet whose payload starts with the
fields that every object shares, followed by what its type adds.  The typed
objects read that rest (`objectPayload`) in `decodeObject` and write it in
`encodeObject`.
-/

namespace BitMRC

open Foundation UString

/-! ## `class Packet` -/

structure Packet where
  magic : UInt32
  /-- Null padded. -/
  command : Block 12
  length : UInt32
  checksum : Block 4
  messagePayload : UString
  deriving DecidableEq

namespace Packet

/-- The fields of a frame held in a string. -/
def read : Reader Packet := do
  let magic ← getInt32
  let command ← getUstring 12
  let length ← getInt32
  let checksum ← getUstring 4
  let messagePayload ← getRest
  return {
    magic := magic.toUInt32
    command := strncpy command 12
    length := length.toUInt32
    checksum := strncpy checksum 4
    messagePayload }

/-- `Packet::Packet(ustring data)`. -/
def ofUString (data : UString) : Except Exn Packet := read.value data 0

/-- Member-wise copy in the constructors of the derived classes, where the two
arrays go through `strncpy`. -/
def copy (packet : Packet) : Packet where
  magic := packet.magic
  command := strncpy packet.command.toUString 12
  length := packet.length
  checksum := strncpy packet.checksum.toUString 4
  messagePayload := packet.messagePayload

end Packet

/-! ## `class object` -/

/-- `enum ObjectType`. -/
def typeGetpubkey : UInt32 := 0
def typePubkey : UInt32 := 1
def typeMsg : UInt32 := 2
def typeBroadcast : UInt32 := 3

structure Object extends Packet where
  nonce : UInt64
  time : Int64
  objectType : UInt32
  objectPayload : UString
  version : UInt64
  stream : UInt64
  deriving DecidableEq

namespace Object

/-- What `decodeData` reads into the fields of `packet`. -/
def readData (packet : Packet) : Reader Object := do
  let nonce ← getInt64
  let time ← getInt64
  let objectType ← getInt32
  let version ← getVarIntB
  let stream ← getVarIntB
  let objectPayload ← getRest
  return {
    packet with
    nonce := nonce.toUInt64
    time
    objectType := objectType.toUInt32
    objectPayload
    version := version.toUInt64
    stream := stream.toUInt64 }

def decodeData (packet : Packet) : Except Exn Object :=
  (readData packet).value packet.messagePayload 0

/-- `object::object(Packet)`. -/
def ofPacket (packet : Packet) : Except Exn Object := decodeData packet.copy

/-- The header of an object without its nonce. -/
def header (obj : Object) : UString :=
  appendVarIntB (appendVarIntB (appendInt32 (appendInt64 [] obj.time)
    obj.objectType.toInt32) obj.version) obj.stream

def encodePayload (obj : Object) : Object :=
  let payload := appendInt64 [] obj.nonce.toInt64
  let payload := appendInt64 payload obj.time
  let payload := appendInt32 payload obj.objectType.toInt32
  let payload := appendVarIntB payload obj.version
  let payload := appendVarIntB payload obj.stream
  { obj with messagePayload := payload ++ obj.objectPayload }

/-- Member-wise copy of an `object` into a typed object. -/
def copy (obj : Object) : Object := { obj with toPacket := obj.toPacket.copy }

/-- The bytes that signatures cover in front of the signed text: the fields of a
payload from its ninth byte on, read and written again.  The cursor starts at 8,
so the nonce is left out. -/
def signedHeader : Reader UString := do
  let time ← getInt64
  let objectType ← getInt32
  let version ← getVarIntB
  let stream ← getVarIntB
  return appendVarIntB (appendVarIntB (appendInt32 (appendInt64 [] time) objectType)
    version.toUInt64) stream.toUInt64

end Object

/-! ## The typed objects -/

/-- `class packet_getpubkey`. -/
structure PacketGetpubkey extends Object where
  tag : UString

namespace PacketGetpubkey

def ofObject (obj : Object) : PacketGetpubkey where
  toObject := obj.copy
  tag := obj.objectPayload

def encodeObject (packet : PacketGetpubkey) : PacketGetpubkey :=
  { packet with objectPayload := packet.tag }

end PacketGetpubkey

/-- The 32-byte tag in front of the encrypted part. -/
def readTagged : Reader (UString × UString) := do
  let tag ← getUstring 32
  let encrypted ← getRest
  return (tag, encrypted)

/-- `class packet_pubkey`. -/
structure PacketPubkey extends Object where
  tag : UString
  encrypted : UString

namespace PacketPubkey

/-- `packet_pubkey::packet_pubkey(object)` with its `decodeObject`; without a tag
in the version both strings stay empty. -/
def ofObject (obj : Object) : Except Exn PacketPubkey :=
  if obj.version = 4 then do
    let (tag, encrypted) ← readTagged.value obj.objectPayload 0
    return { obj.copy with tag, encrypted }
  else
    return { obj.copy with tag := [], encrypted := [] }

def encodeObject (packet : PacketPubkey) : PacketPubkey :=
  if packet.version = 4 then
    { packet with objectPayload := packet.tag ++ packet.encrypted }
  else
    packet

end PacketPubkey

/-- `class packet_msg`. -/
structure PacketMsg extends Object

namespace PacketMsg

def ofObject (obj : Object) : PacketMsg where
  toObject := obj.copy

end PacketMsg

/-- `class packet_broadcast`. -/
structure PacketBroadcast extends Object where
  tag : UString
  encrypted : UString

namespace PacketBroadcast

def ofObject (obj : Object) : Except Exn PacketBroadcast :=
  if obj.version = 4 then
    return { obj.copy with tag := [], encrypted := obj.objectPayload }
  else if obj.version = 5 then do
    let (tag, encrypted) ← readTagged.value obj.objectPayload 0
    return { obj.copy with tag, encrypted }
  else
    return { obj.copy with tag := [], encrypted := [] }

def encodeObject (packet : PacketBroadcast) : PacketBroadcast :=
  if packet.version = 4 then
    { packet with objectPayload := packet.encrypted }
  else if packet.version = 5 then
    { packet with objectPayload := packet.tag ++ packet.encrypted }
  else
    packet

end PacketBroadcast

/-! ## Payload layout -/

namespace Object

theorem header_eq (obj : Object) :
    obj.header = appendInt64 [] obj.time ++ (appendInt32 [] obj.objectType.toInt32 ++
      (appendVarIntB [] obj.version ++ appendVarIntB [] obj.stream)) := by
  rw [header, appendVarIntB_eq, appendVarIntB_eq (appendInt32 _ _),
    appendInt32_eq (appendInt64 _ _)]
  simp only [List.append_assoc]

/-- A payload is the nonce, the header and the rest. -/
theorem encodePayload_messagePayload (obj : Object) :
    obj.encodePayload.messagePayload =
      appendInt64 [] obj.nonce.toInt64 ++ (obj.header ++ obj.objectPayload) := by
  simp only [encodePayload]
  rw [appendVarIntB_eq, appendVarIntB_eq (appendInt32 _ _), appendInt32_eq (appendInt64 _ _),
    appendInt64_eq (appendInt64 _ _), header_eq]
  simp only [List.append_assoc]

theorem header_length_le (obj : Object) : obj.header.length ≤ 30 := by
  have version := appendVarIntB_length_le obj.version
  have stream := appendVarIntB_length_le obj.stream
  rw [header_eq]
  simp only [List.length_append, appendInt64_length, appendInt32_length]
  omega

/-- In front of a header, `signedHeader` returns that header. -/
theorem signedHeader_decodes (obj : Object) :
    Cursor.Decodes intLimit signedHeader obj.header obj.header := by
  have read : Cursor.Decodes intLimit signedHeader
      (appendInt64 [] obj.time ++ (appendInt32 [] obj.objectType.toInt32 ++
        (appendVarIntB [] obj.version ++ appendVarIntB [] obj.stream))) obj.header := by
    apply (getInt64_decodes obj.time).bind
    apply (getInt32_decodes obj.objectType.toInt32).bind
    apply (getVarIntB_decodes obj.version).bind
    have last : Cursor.Decodes intLimit getVarIntB (appendVarIntB [] obj.stream)
        obj.stream.toInt64 := getVarIntB_decodes obj.stream
    have packed := last.map fun stream =>
      appendVarIntB (appendVarIntB (appendInt32 (appendInt64 [] obj.time)
        obj.objectType.toInt32) obj.version.toInt64.toUInt64) stream.toUInt64
    simpa only [header, UInt64.toUInt64_toInt64] using packed
  rwa [← header_eq] at read

/-- Whatever nonce and rest a payload has, the signed part of its header is the
same. -/
theorem signedHeader_encodePayload {obj : Object}
    (short : obj.encodePayload.messagePayload.length < intLimit) :
    ∃ stop, signedHeader obj.encodePayload.messagePayload 8 = .ok (obj.header, stop) := by
  rw [encodePayload_messagePayload] at short ⊢
  exact ⟨_, signedHeader_decodes obj _ _ short⟩

end Object

/-! ## Longer strings -/

/-- The fields of a frame in front of its payload. -/
def Packet.readHead : Reader (Int32 × UString × Int32 × UString) := do
  let magic ← getInt32
  let command ← getUstring 12
  let length ← getInt32
  let checksum ← getUstring 4
  return (magic, command, length, checksum)

theorem Packet.read_eq : Packet.read = (Packet.readHead >>= fun fields =>
    getRest >>= fun messagePayload => pure {
      magic := fields.1.toUInt32
      command := strncpy fields.2.1 12
      length := fields.2.2.1.toUInt32
      checksum := strncpy fields.2.2.2 4
      messagePayload }) := by
  simp only [Packet.read, Packet.readHead, bind_assoc, pure_bind]

theorem Packet.readHead_padded : Cursor.Padded intLimit (0 : UInt8) 0 Packet.readHead :=
  getInt32_padded.bind fun _ => (getUstring_padded (by decide) (by decide)).bind fun _ =>
    getInt32_padded.bind fun _ => (getUstring_padded (by decide) (by decide)).bind fun _ =>
      Cursor.Padded.pure _ _ _

/-- The fields of an object in front of what its type adds. -/
def Object.readHead : Reader (Int64 × Int64 × Int32 × Int64 × Int64) := do
  let nonce ← getInt64
  let time ← getInt64
  let objectType ← getInt32
  let version ← getVarIntB
  let stream ← getVarIntB
  return (nonce, time, objectType, version, stream)

theorem Object.readData_eq (packet : Packet) : Object.readData packet =
    (Object.readHead >>= fun fields => getRest >>= fun objectPayload => pure {
      packet with
      nonce := fields.1.toUInt64
      time := fields.2.1
      objectType := fields.2.2.1.toUInt32
      objectPayload
      version := fields.2.2.2.1.toUInt64
      stream := fields.2.2.2.2.toUInt64 }) := by
  simp only [Object.readData, Object.readHead, bind_assoc, pure_bind]

theorem Object.readHead_padded : Cursor.Padded intLimit (0 : UInt8) 2 Object.readHead :=
  getInt64_padded.bind fun _ => getInt64_padded.bind fun _ => getInt32_padded.bind fun _ =>
    getVarIntB_padded.bind fun _ => getVarIntB_padded.bind fun _ => Cursor.Padded.pure _ _ _

/-- The fields in front of what the type adds, whatever that is. -/
theorem Object.readHead_append (obj : Object) (tail : UString) :
    Object.readHead (appendInt64 [] obj.nonce.toInt64 ++ (obj.header ++ tail)) 0 =
      .ok ((obj.nonce.toInt64, obj.time, obj.objectType.toInt32, obj.version.toInt64,
        obj.stream.toInt64), 8 + obj.header.length) := by
  have length := obj.header_length_le
  -- the fields alone are short, and no read of them goes past their end
  have whole : appendInt64 [] obj.nonce.toInt64 ++ (obj.header ++ tail) =
      appendInt64 [] obj.nonce.toInt64 ++ obj.header ++ tail := (List.append_assoc ..).symm
  have short : (appendInt64 [] obj.nonce.toInt64 ++ obj.header).length < intLimit := by
    simp only [List.length_append, appendInt64_length, intLimit]
    omega
  have version := appendVarIntB_length_pos obj.version
  have stream := appendVarIntB_length_pos obj.stream
  have total : (appendInt64 [] obj.nonce.toInt64 ++ obj.header).length = 20 +
      (appendVarIntB [] obj.version).length + (appendVarIntB [] obj.stream).length := by
    rw [header_eq]
    simp only [List.length_append, appendInt64_length, appendInt32_length]
    omega
  have headerLength : obj.header.length + 8 =
      (appendInt64 [] obj.nonce.toInt64 ++ obj.header).length := by
    simp only [List.length_append, appendInt64_length]
    omega
  rw [whole]
  generalize frontEq : appendInt64 [] obj.nonce.toInt64 ++ obj.header = front
    at short total headerLength ⊢
  have here : Cursor.At front 0 (appendInt64 [] obj.nonce.toInt64 ++ (appendInt64 [] obj.time ++
      (appendInt32 [] obj.objectType.toInt32 ++
        (appendVarIntB [] obj.version ++ appendVarIntB [] obj.stream)))) :=
    ⟨Nat.zero_le _, by rw [List.drop_zero, ← frontEq, header_eq]⟩
  obtain ⟨readNonce, here⟩ := (getInt64_decodes obj.nonce.toInt64).at short here
  obtain ⟨readTime, here⟩ := (getInt64_decodes obj.time).at short here
  obtain ⟨readType, here⟩ := (getInt32_decodes obj.objectType.toInt32).at short here
  obtain ⟨readVersion, here⟩ := (getVarIntB_decodes obj.version).at short here
  have readStream := (getVarIntB_decodes obj.stream).at_end short here
  simp only [appendInt64_length, appendInt32_length] at readNonce readTime readType readVersion
  simp only [appendInt64_length, appendInt32_length] at readStream
  have nonce := getInt64_extends.keeps short (by omega) readNonce tail
  have time := getInt64_extends.keeps short (by omega) readTime tail
  have objectType := getInt32_extends.keeps short (by omega) readType tail
  have versionRead := getVarIntB_keeps short (by omega) (by omega) readVersion tail
  have streamRead := getVarIntB_keeps short (by omega) (by omega) readStream tail
  rw [readHead, Cursor.bind_of_ok nonce, Cursor.bind_of_ok time, Cursor.bind_of_ok objectType,
    Cursor.bind_of_ok versionRead, Cursor.bind_of_ok streamRead, Cursor.pure_apply]
  congr 2
  omega

/-- The fields of an object come back from its payload. -/
theorem Object.decodeData_encodePayload {obj : Object} {packet : Packet}
    (payload : packet.messagePayload = obj.encodePayload.messagePayload) :
    decodeData packet = .ok {
      packet with
      nonce := obj.nonce
      time := obj.time
      objectType := obj.objectType
      objectPayload := obj.objectPayload
      version := obj.version
      stream := obj.stream } := by
  rw [decodeData, payload, encodePayload_messagePayload, readData_eq]
  have inside : 8 + obj.header.length ≤
      (appendInt64 [] obj.nonce.toInt64 ++ (obj.header ++ obj.objectPayload)).length := by
    simp only [List.length_append, appendInt64_length]
    omega
  have rest : (appendInt64 [] obj.nonce.toInt64 ++ (obj.header ++ obj.objectPayload)).drop
      (8 + obj.header.length) = obj.objectPayload := by
    rw [← List.append_assoc]
    apply List.drop_left'
    simp only [List.length_append, appendInt64_length]
  have readRest := getRest_eq inside
  rw [rest] at readRest
  apply Cursor.value_of_ok
  rw [Cursor.bind_of_ok (readHead_append obj obj.objectPayload), Cursor.bind_of_ok readRest,
    Cursor.pure_apply]
  simp only [UInt64.toUInt64_toInt64, UInt32.toUInt32_toInt32]
  rfl

/-- An object that decodes has at least its nonce. -/
theorem Object.decodeData_eight {packet : Packet} {obj : Object}
    (short : packet.messagePayload.length < intLimit) (decoded : decodeData packet = .ok obj) :
    8 ≤ packet.messagePayload.length := by
  obtain ⟨_, read⟩ := Cursor.value_eq_ok.mp decoded
  obtain ⟨_, _, readNonce, _⟩ := Cursor.bind_eq_ok.mp read
  have room := (getInt64_fixed.room short readNonce).1
  omega

/-- The tag of 32 bytes and what follows it. -/
theorem readTagged_append {tag : UString} (encrypted : UString) (length : tag.length = 32) :
    readTagged.value (tag ++ encrypted) 0 = .ok (tag, encrypted) := by
  have readTag : getUstring 32 (tag ++ encrypted) 0 = .ok (tag, 32) := by
    refine getUstring_eq_ok.mpr ⟨Nat.zero_le _, ?_, rfl⟩
    exact (List.take_left' length).symm
  have inside : 32 ≤ (tag ++ encrypted).length := by
    rw [List.length_append]
    omega
  have readRest := getRest_eq inside
  rw [List.drop_left' length] at readRest
  apply Cursor.value_of_ok
  rw [readTagged, Cursor.bind_of_ok readTag, Cursor.bind_of_ok readRest, Cursor.pure_apply]

/-- The typed object of a tagged pubkey object. -/
theorem PacketPubkey.ofObject_tagged {obj : Object} {tag encrypted : UString}
    (version : obj.version = 4)
    (tagged : readTagged.value obj.objectPayload 0 = .ok (tag, encrypted)) :
    PacketPubkey.ofObject obj = .ok { obj.copy with tag, encrypted } := by
  simp only [ofObject, if_pos version, tagged, bind, Except.bind, pure, Except.pure]

/-- The typed object of a tagged broadcast. -/
theorem PacketBroadcast.ofObject_tagged {obj : Object} {tag encrypted : UString}
    (version : obj.version = 5)
    (tagged : readTagged.value obj.objectPayload 0 = .ok (tag, encrypted)) :
    PacketBroadcast.ofObject obj = .ok { obj.copy with tag, encrypted } := by
  have other : ¬(obj.version = 4) := by rw [version]; decide
  simp only [ofObject, if_neg other, if_pos version, tagged, bind, Except.bind, pure,
    Except.pure]

end BitMRC

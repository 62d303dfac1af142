import BitMRC.Wire.Object

/-!
# The wire format of objects

What `encodeObject` and `encodePayload` write, `decodeData` and `decodeObject` read
back, for every kind of object and whatever the length of its variable part.
-/

namespace BitMRC

open Foundation UString

/-! ## `decodeObject` of the typed objects -/

namespace PacketGetpubkey

/-- `decodeObject`. -/
def decodeObject (packet : PacketGetpubkey) : PacketGetpubkey :=
  { packet with tag := packet.objectPayload }

end PacketGetpubkey

namespace PacketPubkey

/-- `decodeObject`. -/
def decodeObject (packet : PacketPubkey) : Except Exn PacketPubkey :=
  if packet.version = 4 then do
    let (tag, encrypted) ← readTagged.value packet.objectPayload 0
    return { packet with tag, encrypted }
  else
    return packet

/-- The constructor copies the object and decodes it. -/
theorem ofObject_eq (obj : Object) : ofObject obj = decodeObject ⟨obj.copy, [], []⟩ := rfl

end PacketPubkey

namespace PacketBroadcast

/-- `decodeObject`. -/
def decodeObject (packet : PacketBroadcast) : Except Exn PacketBroadcast :=
  if packet.version = 4 then
    return { packet with encrypted := packet.objectPayload }
  else if packet.version = 5 then do
    let (tag, encrypted) ← readTagged.value packet.objectPayload 0
    return { packet with tag, encrypted }
  else
    return packet

theorem ofObject_eq (obj : Object) : ofObject obj = decodeObject ⟨obj.copy, [], []⟩ := rfl

end PacketBroadcast

/-! ## Round trips -/

section RoundTrip

variable {frame : Packet}

/-- An object that comes in a frame with the payload it was encoded to. -/
theorem Object.decodeData_frame {obj : Object}
    (payload : frame.messagePayload = obj.encodePayload.messagePayload) :
    decodeData frame = .ok { obj with toPacket := frame } :=
  decodeData_encodePayload payload

theorem PacketPubkey.decodeObject_encodeObject {packet : PacketPubkey}
    (version : packet.version = 4) (tag32 : packet.tag.length = 32) (frame : Packet)
    (tag encrypted : UString) :
    decodeObject ⟨{ packet.encodeObject.toObject with toPacket := frame }, tag, encrypted⟩ =
      .ok { packet.encodeObject with toPacket := frame } := by
  have tagged := readTagged_append packet.encrypted tag32
  simp only [encodeObject, if_pos version, decodeObject, tagged, bind, Except.bind]
  rfl

theorem PacketBroadcast.decodeObject_encodeObject {packet : PacketBroadcast}
    (version : packet.version = 5) (tag32 : packet.tag.length = 32) (frame : Packet)
    (tag encrypted : UString) :
    decodeObject ⟨{ packet.encodeObject.toObject with toPacket := frame }, tag, encrypted⟩ =
      .ok { packet.encodeObject with toPacket := frame } := by
  have tagged := readTagged_append packet.encrypted tag32
  have other : ¬(packet.version = 4) := by rw [version]; decide
  simp only [encodeObject, if_neg other, if_pos version, decodeObject, tagged, bind, Except.bind]
  rfl

/-- A broadcast of version 4 has no tag; the one that the object had before stays. -/
theorem PacketBroadcast.decodeObject_untagged {packet : PacketBroadcast}
    (version : packet.version = 4) (frame : Packet) (tag encrypted : UString) :
    decodeObject ⟨{ packet.encodeObject.toObject with toPacket := frame }, tag, encrypted⟩ =
      .ok { packet.encodeObject with toPacket := frame, tag } := by
  simp only [encodeObject, if_pos version, decodeObject]
  rfl

/-- Every kind of object comes back from its payload, with the frame that brought it:
`decodeData`, then `decodeObject` on an object that had any tag and ciphertext before, or
the typed constructor, which copies the frame. -/
theorem objects_roundTrip (frame : Packet) :
    (∀ packet : PacketGetpubkey,
      frame.messagePayload = packet.encodeObject.toObject.encodePayload.messagePayload →
      ∃ obj, Object.decodeData frame = .ok obj ∧
        (∀ tag, PacketGetpubkey.decodeObject ⟨obj, tag⟩ =
          { packet.encodeObject with toPacket := frame }) ∧
        PacketGetpubkey.ofObject obj = { packet.encodeObject with toPacket := frame.copy }) ∧
    (∀ packet : PacketPubkey, packet.version = 4 → packet.tag.length = 32 →
      frame.messagePayload = packet.encodeObject.toObject.encodePayload.messagePayload →
      ∃ obj, Object.decodeData frame = .ok obj ∧
        (∀ tag encrypted, PacketPubkey.decodeObject ⟨obj, tag, encrypted⟩ =
          .ok { packet.encodeObject with toPacket := frame }) ∧
        PacketPubkey.ofObject obj = .ok { packet.encodeObject with toPacket := frame.copy }) ∧
    (∀ packet : PacketMsg,
      frame.messagePayload = packet.toObject.encodePayload.messagePayload →
      ∃ obj, Object.decodeData frame = .ok obj ∧
        obj = { packet.toObject with toPacket := frame } ∧
        PacketMsg.ofObject obj = { packet with toPacket := frame.copy }) ∧
    (∀ packet : PacketBroadcast, packet.version = 4 →
      frame.messagePayload = packet.encodeObject.toObject.encodePayload.messagePayload →
      ∃ obj, Object.decodeData frame = .ok obj ∧
        (∀ tag encrypted, PacketBroadcast.decodeObject ⟨obj, tag, encrypted⟩ =
          .ok { packet.encodeObject with toPacket := frame, tag }) ∧
        PacketBroadcast.ofObject obj =
          .ok { packet.encodeObject with toPacket := frame.copy, tag := [] }) ∧
    (∀ packet : PacketBroadcast, packet.version = 5 → packet.tag.length = 32 →
      frame.messagePayload = packet.encodeObject.toObject.encodePayload.messagePayload →
      ∃ obj, Object.decodeData frame = .ok obj ∧
        (∀ tag encrypted, PacketBroadcast.decodeObject ⟨obj, tag, encrypted⟩ =
          .ok { packet.encodeObject with toPacket := frame }) ∧
        PacketBroadcast.ofObject obj =
          .ok { packet.encodeObject with toPacket := frame.copy }) := by
  refine ⟨?getpubkey, ?pubkey, ?msg, ?untagged, ?tagged⟩
  case getpubkey =>
    intro packet payload
    exact ⟨_, Object.decodeData_frame payload, fun _ => rfl, rfl⟩
  case pubkey =>
    intro packet version tag32 payload
    have decoded := PacketPubkey.decodeObject_encodeObject version tag32
    refine ⟨_, Object.decodeData_frame payload, decoded frame, ?_⟩
    rw [PacketPubkey.ofObject_eq]
    exact decoded frame.copy [] []
  case msg =>
    intro packet payload
    exact ⟨_, Object.decodeData_frame payload, rfl, rfl⟩
  case untagged =>
    intro packet version payload
    have decoded := PacketBroadcast.decodeObject_untagged version
    refine ⟨_, Object.decodeData_frame payload, decoded frame, ?_⟩
    rw [PacketBroadcast.ofObject_eq]
    exact decoded frame.copy [] []
  case tagged =>
    intro packet version tag32 payload
    have decoded := PacketBroadcast.decodeObject_encodeObject version tag32
    refine ⟨_, Object.decodeData_frame payload, decoded frame, ?_⟩
    rw [PacketBroadcast.ofObject_eq]
    exact decoded frame.copy [] []

/-- A broadcast with the largest nonce and a stream that turns negative on its way. -/
def PacketBroadcast.sample : PacketBroadcast where
  magic := 0
  command := strncpy [] 12
  length := 0
  checksum := strncpy [] 4
  messagePayload := []
  nonce := 0xFFFFFFFFFFFFFFFF
  time := -1
  objectType := typeBroadcast
  objectPayload := []
  version := 5
  stream := 0x8000000000000000
  tag := List.replicate 32 7
  encrypted := [1, 2, 3]

theorem objects_roundTrip_sample :
    ∃ obj, Object.decodeData PacketBroadcast.sample.encodeObject.toObject.encodePayload.toPacket =
        .ok obj ∧
      (∀ tag encrypted, PacketBroadcast.decodeObject ⟨obj, tag, encrypted⟩ =
        .ok { PacketBroadcast.sample.encodeObject with
          toPacket := PacketBroadcast.sample.encodeObject.toObject.encodePayload.toPacket }) ∧
      PacketBroadcast.ofObject obj =
        .ok { PacketBroadcast.sample.encodeObject with
          toPacket :=
            PacketBroadcast.sample.encodeObject.toObject.encodePayload.toPacket.copy } :=
  (objects_roundTrip PacketBroadcast.sample.encodeObject.toObject.encodePayload.toPacket).2.2.2.2
    PacketBroadcast.sample rfl (by decide) rfl

end RoundTrip

end BitMRC

import BitMRC.Utils.SocketUString
import BitMRC.Utils.UStringReads
import BitMRC.Wire.Packets
import Mathlib.Data.List.TakeWhile

/-!
# Frames

A packet is received from a socket by `getCommand`, or taken from a string by its
constructor, and sent by `sendData`.  `getCommand` keeps the four bytes of the
checksum as they are.  All other ways treat them as a C string, which ends at the
first zero.
-/

namespace BitMRC

open Foundation UString

namespace Packet

/-! ## Sockets -/

/-- `getCommand`, with what ends the loops of its strings where the connection ends. -/
def receive (cut : Exn) (ending : Ending) : SocketReader Packet := do
  let magic ← SocketUString.getInt32 ending
  let command ← SocketUString.recvUstring cut 12
  let length ← SocketUString.getInt32 ending
  let checksum0 ← SocketUString.getInt8 ending
  let checksum1 ← SocketUString.getInt8 ending
  let checksum2 ← SocketUString.getInt8 ending
  let checksum3 ← SocketUString.getInt8 ending
  let messagePayload ← SocketUString.recvUstring cut length.toInt
  return {
    magic := magic.toUInt32
    command := strncpy command 12
    length := length.toUInt32
    checksum := ⟨[checksum0, checksum1, checksum2, checksum3], rfl⟩
    messagePayload }

/-- `getCommand`, while `errno` says neither `EAGAIN` nor `EWOULDBLOCK`. -/
def getCommand (ending : Ending) : SocketReader Packet := receive ending.exn ending

/-- `sendData`: the bytes that are sent.  Without a zero in the command `strlen` counts
past its end, and twelve bytes are sent all the same. -/
def sendData (packet : Packet) : Except Exn UString := do
  let out := SocketUString.sendInt32 [] packet.magic.toInt32
  let tmp := cStr packet.command.toUString
  let tmp := tmp ++ List.replicate (12 - tmp.length) 0
  let out ← SocketUString.sendUstring out tmp 12
  let out := SocketUString.sendInt32 out packet.length.toInt32
  let out := packet.checksum.toUString.foldl SocketUString.sendByte out
  SocketUString.sendUstring out packet.messagePayload packet.length.toInt32.toInt

/-- The typed packets that a packet is converted to, seen as packets again; objects are
converted once more to the packet of their type. -/
inductive Converts (packet : Packet) : Packet → Prop
  | version {memory typed : PacketVersion}
      (decoded : PacketVersion.ofPacket memory packet = .ok typed) :
      Converts packet typed.toPacket
  | verack : Converts packet (PacketVerack.ofPacket packet).toPacket
  | addr {typed : PacketAddr} (decoded : PacketAddr.ofPacket packet = .ok typed) :
      Converts packet typed.toPacket
  | inv {typed : PacketInv} (decoded : PacketInv.ofPacket packet = .ok typed) :
      Converts packet typed.toPacket
  | getdata {typed : PacketGetdata} (decoded : PacketGetdata.ofPacket packet = .ok typed) :
      Converts packet typed.toPacket
  | object {obj : Object} (decoded : Object.ofPacket packet = .ok obj) :
      Converts packet obj.toPacket
  | getpubkey {obj : Object} (decoded : Object.ofPacket packet = .ok obj) :
      Converts packet (PacketGetpubkey.ofObject obj).toPacket
  | pubkey {obj : Object} {typed : PacketPubkey} (decoded : Object.ofPacket packet = .ok obj)
      (typedDecoded : PacketPubkey.ofObject obj = .ok typed) : Converts packet typed.toPacket
  | msg {obj : Object} (decoded : Object.ofPacket packet = .ok obj) :
      Converts packet (PacketMsg.ofObject obj).toPacket
  | broadcast {obj : Object} {typed : PacketBroadcast}
      (decoded : Object.ofPacket packet = .ok obj)
      (typedDecoded : PacketBroadcast.ofObject obj = .ok typed) : Converts packet typed.toPacket

/-- The packet that `getCommand` makes of what it received. -/
def ofFields (magic : Int32) (command : UString) (length : Int32) (checksum : Block 4)
    (messagePayload : UString) : Packet where
  magic := magic.toUInt32
  command := strncpy command 12
  length := length.toUInt32
  checksum
  messagePayload

/-- `getCommand` in front of its fields, for any twelve bytes of the command. -/
theorem getCommand_receives_fields (ending : Ending) (magic : Int32) (command : Block 12)
    {length : Int32} (checksum : Block 4) {payload : UString}
    (size : length.toInt = payload.length) :
    SocketUString.Receives ending (getCommand ending)
      (appendInt32 [] magic ++ (command.toUString ++
        (appendInt32 [] length ++ checksum.toUString)) ++ payload)
      (ofFields magic command.toUString length checksum payload) := by
  obtain ⟨c0, c1, c2, c3, same⟩ : ∃ c0 c1 c2 c3, checksum = ⟨[c0, c1, c2, c3], rfl⟩ := by
    obtain ⟨_ | ⟨c0, _ | ⟨c1, _ | ⟨c2, _ | ⟨c3, _ | ⟨c4, rest⟩⟩⟩⟩⟩, length⟩ := checksum
    all_goals first | exact ⟨c0, c1, c2, c3, rfl⟩ | cases length
  have encoding : appendInt32 [] magic ++ (command.toUString ++
      (appendInt32 [] length ++ checksum.toUString)) ++ payload =
        appendInt32 [] magic ++ (command.toUString ++ (appendInt32 [] length ++
          ([c0] ++ ([c1] ++ ([c2] ++ ([c3] ++ payload)))))) := by
    simp [same, Block.toUString]
  rw [encoding, same]
  exact (SocketUString.getInt32_receives _).bind
    ((SocketUString.getUstring_receives (by simp)).bind
      ((SocketUString.getInt32_receives _).bind ((SocketUString.getInt8_receives _).bind
        ((SocketUString.getInt8_receives _).bind ((SocketUString.getInt8_receives _).bind
          ((SocketUString.getInt8_receives _).bind
            ((SocketUString.getUstring_receives size).map _)))))))

/-- A length that is an `int` and that of the payload bounds the payload. -/
theorem payload_short {packet : Packet}
    (size : packet.length.toInt32.toInt = packet.messagePayload.length) :
    packet.messagePayload.length < intLimit := by
  have bound := packet.length.toInt32.toInt_lt
  simp only [intLimit]
  omega

end Packet

/-! ## C strings in arrays -/

/-- Behind the first zero there are only zeros. -/
def ZeroPadded (s : UString) : Prop := ∀ byte ∈ s.dropWhile (· ≠ 0), byte = 0

instance (s : UString) : Decidable (ZeroPadded s) :=
  inferInstanceAs (Decidable (∀ byte ∈ s.dropWhile (· ≠ 0), byte = 0))

theorem strncpy_toUString {s : UString} {n : Nat} (inside : (cStr s).length ≤ n) :
    (strncpy s n).toUString = cStr s ++ List.replicate (n - (cStr s).length) 0 := by
  simp only [strncpy, Block.toUString, List.take_of_length_le inside]

/-- `strncpy` copies an array exactly when it is zero padded. -/
theorem strncpy_eq_iff {size : Nat} (block : Block size) :
    strncpy block.toUString size = block ↔ ZeroPadded block.toUString := by
  have parts : cStr block.toUString ++ block.toUString.dropWhile (· ≠ 0) = block.toUString :=
    List.takeWhile_append_dropWhile
  have total := congrArg List.length parts
  rw [List.length_append, block.toUString_length] at total
  have behind : size - (cStr block.toUString).length =
      (block.toUString.dropWhile (· ≠ 0)).length := by omega
  have copied := @strncpy_toUString block.toUString size (by omega)
  rw [behind] at copied
  constructor
  · intro same
    rw [same] at copied
    have rest := List.append_cancel_left (parts.trans copied)
    exact (List.eq_replicate_iff.mp rest).2
  · intro padded
    apply Block.ext
    rw [copied, ← List.eq_replicate_iff.mpr ⟨rfl, padded⟩, parts]

theorem strncpy_zeroPadded (s : UString) (n : Nat) : ZeroPadded (strncpy s n).toUString := by
  have nonzero : ∀ byte ∈ (cStr s).take n, decide (byte ≠ 0) = true := by
    intro byte member
    have copied : byte ∈ s.takeWhile (· ≠ 0) := List.mem_of_mem_take member
    simpa using List.mem_takeWhile_imp copied
  intro byte member
  simp only [strncpy, Block.toUString] at member
  rw [List.dropWhile_append_of_pos nonzero] at member
  exact List.eq_of_mem_replicate ((List.dropWhile_sublist _).subset member)

@[simp] theorem strncpy_strncpy (s : UString) (n : Nat) :
    strncpy (strncpy s n).toUString n = strncpy s n :=
  (strncpy_eq_iff _).mpr (strncpy_zeroPadded s n)

/-! ## Conversions -/

@[simp] theorem Packet.copy_copy (packet : Packet) : packet.copy.copy = packet.copy := by
  simp [copy]

theorem PacketVersion.ofPacket_toPacket {memory typed : PacketVersion} {packet : Packet}
    (decoded : ofPacket memory packet = .ok typed) : typed.toPacket = packet.copy := by
  obtain ⟨stop, read⟩ := Cursor.value_eq_ok.mp decoded
  unfold readData at read
  -- the eight fields in front of the result
  iterate 8 obtain ⟨_, _, _, read⟩ := Cursor.bind_eq_ok.mp read
  cases read
  rfl

theorem Object.ofPacket_toPacket {packet : Packet} {obj : Object}
    (decoded : ofPacket packet = .ok obj) : obj.toPacket = packet.copy := by
  obtain ⟨stop, read⟩ := Cursor.value_eq_ok.mp decoded
  unfold readData at read
  iterate 6 obtain ⟨_, _, _, read⟩ := Cursor.bind_eq_ok.mp read
  cases read
  rfl

theorem PacketPubkey.ofObject_toPacket {obj : Object} {typed : PacketPubkey}
    (decoded : ofObject obj = .ok typed) : typed.toPacket = obj.toPacket.copy := by
  unfold ofObject at decoded
  split at decoded
  next =>
    obtain ⟨tagged, _, packed⟩ := bind_eq_ok.mp decoded
    cases packed
    rfl
  next =>
    cases decoded
    rfl

theorem PacketBroadcast.ofObject_toPacket {obj : Object} {typed : PacketBroadcast}
    (decoded : ofObject obj = .ok typed) : typed.toPacket = obj.toPacket.copy := by
  unfold ofObject at decoded
  split at decoded
  next =>
    cases decoded
    rfl
  split at decoded
  next =>
    obtain ⟨tagged, _, packed⟩ := bind_eq_ok.mp decoded
    cases packed
    rfl
  next =>
    cases decoded
    rfl

/-- Whatever a packet is converted to, once or twice, it is copied. -/
theorem Packet.Converts.eq_copy {packet typed : Packet} (converts : packet.Converts typed) :
    typed = packet.copy := by
  cases converts with
  | version decoded => exact PacketVersion.ofPacket_toPacket decoded
  | verack => rfl
  | addr decoded =>
      obtain ⟨addrList, _, packed⟩ := bind_eq_ok.mp decoded
      cases packed
      rfl
  | inv decoded =>
      obtain ⟨inventory, _, packed⟩ := bind_eq_ok.mp decoded
      cases packed
      rfl
  | getdata decoded =>
      obtain ⟨inventory, _, packed⟩ := bind_eq_ok.mp decoded
      cases packed
      rfl
  | object decoded => exact Object.ofPacket_toPacket decoded
  | @getpubkey obj decoded =>
      have twice : (PacketGetpubkey.ofObject obj).toPacket = obj.toPacket.copy := rfl
      rw [twice, Object.ofPacket_toPacket decoded, copy_copy]
  | pubkey decoded typedDecoded =>
      rw [PacketPubkey.ofObject_toPacket typedDecoded, Object.ofPacket_toPacket decoded, copy_copy]
  | @msg obj decoded =>
      have twice : (PacketMsg.ofObject obj).toPacket = obj.toPacket.copy := rfl
      rw [twice, Object.ofPacket_toPacket decoded, copy_copy]
  | broadcast decoded typedDecoded =>
      rw [PacketBroadcast.ofObject_toPacket typedDecoded, Object.ofPacket_toPacket decoded,
        copy_copy]

/-! ## Frames -/

/-- A complete frame: a command of at most eleven non-zero bytes, and a payload whose
size is an `int`. -/
structure Frame where
  magic : UInt32
  name : UString
  name_length : name.length ≤ 11
  name_nonzero : ∀ byte ∈ name, byte ≠ 0
  checksum : Block 4
  payload : UString
  payload_short : payload.length < intLimit

namespace Frame

variable (frame : Frame)

/-- The command, padded with zeros. -/
def command : Block 12 := strncpy frame.name 12

/-- The size of the payload. -/
def length : UInt32 := UInt32.ofNat frame.payload.length

/-- The fields in front of the payload. -/
def head : UString :=
  appendInt32 [] frame.magic.toInt32 ++ (frame.command.toUString ++
    (appendInt32 [] frame.length.toInt32 ++ frame.checksum.toUString))

def bytes : UString := frame.head ++ frame.payload

/-- The packet with these fields. -/
def packet : Packet where
  magic := frame.magic
  command := frame.command
  length := frame.length
  checksum := frame.checksum
  messagePayload := frame.payload

/-- Both parsers agree on the frame, and what they return is sent as the same bytes,
converted or not. -/
def Transparent (ending : Ending) : Prop :=
  ∀ rest : UString, ∃ parsed : Packet,
    Packet.getCommand ending (frame.bytes ++ rest) 0 = .ok (parsed, frame.bytes.length) ∧
    Packet.ofUString frame.bytes = .ok parsed ∧
    parsed.sendData = .ok frame.bytes ∧
    ∀ typed, parsed.Converts typed → typed.sendData = .ok frame.bytes

/-! ## Receiving and sending -/

theorem length_toInt : frame.length.toInt32.toInt = frame.payload.length := by
  have short := frame.payload_short
  simp only [intLimit] at short
  rw [length, UInt32.toInt32_ofNat', Int32.toInt_ofNat_of_lt short]

theorem cStr_name : cStr frame.name = frame.name := by
  rw [cStr, List.takeWhile_eq_self_iff]
  intro byte member
  exact decide_eq_true (frame.name_nonzero byte member)

theorem command_toUString :
    frame.command.toUString = frame.name ++ List.replicate (12 - frame.name.length) 0 := by
  have fits := frame.name_length
  have copied := @strncpy_toUString frame.name 12 (by rw [cStr_name]; omega)
  rwa [cStr_name] at copied

theorem cStr_command : cStr frame.command.toUString = frame.name := by
  have nonzero : ∀ byte ∈ frame.name, decide (byte ≠ 0) = true :=
    fun byte member => decide_eq_true (frame.name_nonzero byte member)
  rw [command_toUString, cStr, List.takeWhile_append_of_pos nonzero]
  simp

/-- `getCommand` receives the frame as it is; within it the connection ends. -/
theorem getCommand_receives (ending : Ending) :
    SocketUString.Receives ending (Packet.getCommand ending) frame.bytes frame.packet := by
  have received := Packet.getCommand_receives_fields ending frame.magic.toInt32 frame.command
    frame.checksum frame.length_toInt
  rwa [Packet.ofFields, UInt32.toUInt32_toInt32, UInt32.toUInt32_toInt32, command,
    strncpy_strncpy] at received

/-- The frame is sent as it is. -/
theorem sendData_packet : frame.packet.sendData = .ok frame.bytes := by
  have padded : frame.name ++ List.replicate (12 - frame.name.length) 0 =
      frame.command.toUString := frame.command_toUString.symm
  have name := SocketUString.sendUstring_eq (appendInt32 [] frame.magic.toInt32)
    (show (12 : Int) = frame.command.toUString.length by simp) (by simp [intLimit])
  unfold Packet.sendData
  simp only [packet, cStr_command, padded, SocketUString.sendInt32_eq, List.nil_append, name, bind,
    Except.bind, SocketUString.foldl_sendByte]
  rw [SocketUString.sendUstring_eq _ frame.length_toInt frame.payload_short]
  simp [bytes, head]

/-- The same frame with another checksum. -/
def withChecksum (checksum : Block 4) : Frame := { frame with checksum }

/-- A copy is the packet of a frame again. -/
theorem copy_packet :
    frame.packet.copy = (frame.withChecksum (strncpy frame.checksum.toUString 4)).packet := by
  have command : strncpy frame.command.toUString 12 = frame.command :=
    strncpy_strncpy frame.name 12
  simp only [Packet.copy, packet, command]
  rfl

/-- Frames that differ in the checksum alone are sent as different bytes. -/
theorem withChecksum_bytes_iff (checksum : Block 4) :
    (frame.withChecksum checksum).bytes = frame.bytes ↔ checksum = frame.checksum := by
  constructor
  · intro same
    have heads : appendInt32 [] frame.magic.toInt32 ++ (frame.command.toUString ++
        (appendInt32 [] frame.length.toInt32 ++ checksum.toUString)) = frame.head :=
      List.append_cancel_right same
    exact Block.ext (List.append_cancel_left (List.append_cancel_left
      (List.append_cancel_left heads)))
  · rintro rfl
    rfl

/-- Whatever the packet of the frame is converted to, it is sent as the same bytes exactly
when `strncpy` copies the whole checksum. -/
theorem converted_sendData_iff {typed : Packet} (converts : frame.packet.Converts typed) :
    typed.sendData = .ok frame.bytes ↔ ZeroPadded frame.checksum.toUString := by
  rw [converts.eq_copy, copy_packet, sendData_packet, ← strncpy_eq_iff, ← withChecksum_bytes_iff]
  exact ⟨Except.ok.inj, congrArg Except.ok⟩

theorem readHead_head : Packet.readHead frame.head 0 =
    .ok ((frame.magic.toInt32, frame.command.toUString, frame.length.toInt32,
      frame.checksum.toUString), frame.head.length) := by
  have fields : Cursor.Decodes intLimit Packet.readHead frame.head
      (frame.magic.toInt32, frame.command.toUString, frame.length.toInt32,
        frame.checksum.toUString) :=
    (getInt32_decodes _).bind ((getUstring_decodes_of_length 12 _ (by simp)).bind
      ((getInt32_decodes _).bind ((getUstring_decodes_of_length 4 _ (by simp)).map _)))
  have found := fields.from_start [] (by simp [head, intLimit])
  rwa [List.append_nil] at found

/-- The constructor from a string reads the checksum as a C string. -/
theorem ofUString_bytes : Packet.ofUString frame.bytes = .ok frame.packet.copy := by
  have extending : Cursor.Extends intLimit Packet.readHead :=
    getInt32_extends.bind fun _ => (getUstring_extends (by decide) (by decide)).bind fun _ =>
      getInt32_extends.bind fun _ => (getUstring_extends (by decide) (by decide)).bind fun _ =>
        Cursor.Extends.pure _ _
  have fields := extending.keeps (by simp [head, intLimit]) (Nat.le_refl _) frame.readHead_head
    frame.payload
  have rest := @getRest_eq (frame.head ++ frame.payload) frame.head.length
    (by rw [List.length_append]; omega)
  rw [List.drop_left] at rest
  apply Cursor.value_of_ok
  rw [Packet.read_eq, bytes, Cursor.bind_of_ok fields, Cursor.bind_of_ok rest, Cursor.pure_apply]
  simp only [UInt32.toUInt32_toInt32]
  rfl

/-! ## Transparency -/

/-- Both parsers return the same packet exactly when `strncpy` copies the whole checksum. -/
theorem copy_packet_iff :
    frame.packet.copy = frame.packet ↔ ZeroPadded frame.checksum.toUString := by
  rw [← strncpy_eq_iff]
  constructor
  · intro same
    exact congrArg Packet.checksum same
  · intro same
    rw [copy_packet, same]
    rfl

theorem getCommand_bytes (ending : Ending) (rest : UString) :
    Packet.getCommand ending (frame.bytes ++ rest) 0 = .ok (frame.packet, frame.bytes.length) := by
  have received := (frame.getCommand_receives ending).whole [] rest
  simpa using received

theorem Transparent.zeroPadded {frame : Frame} {ending : Ending}
    (transparent : frame.Transparent ending) : ZeroPadded frame.checksum.toUString := by
  obtain ⟨parsed, received, constructed, _⟩ := transparent []
  rw [getCommand_bytes] at received
  cases received
  rw [ofUString_bytes] at constructed
  exact frame.copy_packet_iff.mp (Except.ok.inj constructed)

/-- A frame is transparent exactly when no byte of its checksum is hidden behind a zero. -/
theorem transparent_iff (ending : Ending) :
    frame.Transparent ending ↔ ZeroPadded frame.checksum.toUString := by
  constructor
  · exact Transparent.zeroPadded
  · intro padded rest
    refine ⟨frame.packet, frame.getCommand_bytes ending rest, ?_, frame.sendData_packet, ?_⟩
    · rw [ofUString_bytes, frame.copy_packet_iff.mpr padded]
    · intro typed converts
      exact (frame.converted_sendData_iff converts).mpr padded

/-- An empty `verack` whose checksum has a zero in front of another byte. -/
def hiddenByte : Frame where
  magic := 0xE9BEB4D9
  name := verackName
  name_length := by decide
  name_nonzero := by simp [verackName]
  checksum := ⟨[18, 0, 52, 86], rfl⟩
  payload := []
  payload_short := by decide

/-- Received and sent back as a `packet_verack`, it changes. -/
theorem not_transparent_hiddenByte : ¬hiddenByte.Transparent .closed ∧
    (PacketVerack.ofPacket hiddenByte.packet).sendData ≠ .ok hiddenByte.bytes := by
  have hidden : ¬ZeroPadded hiddenByte.checksum.toUString := by decide
  exact ⟨fun transparent => hidden transparent.zeroPadded,
    fun same => hidden ((hiddenByte.converted_sendData_iff .verack).mp same)⟩

end Frame

end BitMRC

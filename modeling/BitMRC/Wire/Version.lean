import BitMRC.Utils.UStringBounds
import BitMRC.Wire.Packets

/-!
# The version packet

`encodeData` writes the user agent and the stream numbers with their lengths in front.
`decodeData` reads the length of the user agent, but takes all that is left of the payload
for the stream numbers.  So these never come back as they were.
-/

namespace BitMRC.PacketVersion

open Foundation UString

/-! ## `encodeData` -/

/-- `Version`. -/
def protocolVersion : Int32 := 3

/-- `NODE_NETWORK`. -/
def nodeNetwork : Int64 := 1

/-- `User_Agent`. -/
def userAgentName : UString :=
  [0x2F, 0x42, 0x69, 0x74, 0x4D, 0x52, 0x43, 0x56, 0x65, 0x72, 0x73, 0x69, 0x6F, 0x6E, 0x30,
    0x2E, 0x30, 0x2E, 0x31, 0x2F]

/-- What one of the two addresses adds to the payload. -/
def appendAddress (payload : UString) (address : NetworkAddress) : UString :=
  let payload := appendInt64 payload address.services.toInt64
  let payload := payload ++ address.ipv6_4
  appendInt16 payload address.port.toInt16

/-- `encodeData`; `now` is `std::time`. -/
def encodeData (packet : PacketVersion) (now : Int64) : Except Exn PacketVersion := do
  let payload := appendInt32 [] protocolVersion
  let payload := appendInt64 payload nodeNetwork
  let payload := appendInt64 payload now
  let payload := appendAddress payload packet.addrRecv
  let payload := appendAddress payload packet.addrFrom
  let payload := appendInt64 payload packet.nonce.toInt64
  let userAgent := packet.userAgent ++ userAgentName
  let payload ←
    -- `append(0)` appends a string at the null pointer
    if userAgent.length = 0 then .error .undefined
    else .ok (appendVarUstringB payload userAgent)
  return {
    packet with
    toPacket := {
      packet.toPacket.setCommand versionName (by decide) with
      messagePayload := appendVarUstringB payload packet.streamNumbers }
    userAgent }

/-- A receiver that holds `memory` decodes what was sent. -/
def RoundTrips (packet : PacketVersion) (now : Int64) (memory : PacketVersion) : Prop :=
  ∃ encoded decoded, packet.encodeData now = .ok encoded ∧
    decodeData { memory with messagePayload := encoded.messagePayload } = .ok decoded ∧
    decoded.addrRecv.services = packet.addrRecv.services ∧
    decoded.addrRecv.ipv6_4 = packet.addrRecv.ipv6_4 ∧
    decoded.addrRecv.port = packet.addrRecv.port ∧
    decoded.addrFrom.services = packet.addrFrom.services ∧
    decoded.addrFrom.ipv6_4 = packet.addrFrom.ipv6_4 ∧
    decoded.addrFrom.port = packet.addrFrom.port ∧
    decoded.nonce = packet.nonce ∧ decoded.userAgent = encoded.userAgent ∧
    decoded.streamNumbers = packet.streamNumbers

/-! ## The payload -/

/-- The bytes of one of the two addresses. -/
def addressBytes (address : NetworkAddress) : UString :=
  appendInt64 [] address.services.toInt64 ++
    (address.ipv6_4 ++ appendInt16 [] address.port.toInt16)

theorem appendAddress_eq (payload : UString) (address : NetworkAddress) :
    appendAddress payload address = payload ++ addressBytes address := by
  rw [appendAddress, appendInt16_eq, appendInt64_eq, addressBytes]
  simp only [List.append_assoc]

theorem addressBytes_length {address : NetworkAddress} (sixteen : address.ipv6_4.length = 16) :
    (addressBytes address).length = 26 := by
  simp [addressBytes, sixteen]

/-- The fields in front of the user agent. -/
def fixedBytes (packet : PacketVersion) (now : Int64) : UString :=
  appendInt32 [] protocolVersion ++ (appendInt64 [] nodeNetwork ++ (appendInt64 [] now ++
    (addressBytes packet.addrRecv ++ (addressBytes packet.addrFrom ++
      appendInt64 [] packet.nonce.toInt64))))

theorem fixedBytes_length {packet : PacketVersion} {now : Int64}
    (recv : packet.addrRecv.ipv6_4.length = 16) (sender : packet.addrFrom.ipv6_4.length = 16) :
    (fixedBytes packet now).length = 80 := by
  simp [fixedBytes, addressBytes_length recv, addressBytes_length sender]

/-- A user agent is never empty, since `encodeData` adds the name of the program. -/
theorem encodeData_eq (packet : PacketVersion) (now : Int64) : packet.encodeData now = .ok {
    packet with
    toPacket := {
      packet.toPacket.setCommand versionName (by decide) with
      messagePayload := fixedBytes packet now ++
        (appendVarUstringB [] (packet.userAgent ++ userAgentName) ++
          appendVarUstringB [] packet.streamNumbers) }
    userAgent := packet.userAgent ++ userAgentName } := by
  have named : (packet.userAgent ++ userAgentName).length ≠ 0 := by
    simp [userAgentName]
  have payload : appendInt64 (appendAddress (appendAddress (appendInt64 (appendInt64
      (appendInt32 [] protocolVersion) nodeNetwork) now) packet.addrRecv) packet.addrFrom)
        packet.nonce.toInt64 = fixedBytes packet now := by
    rw [appendInt64_eq, appendAddress_eq, appendAddress_eq, appendInt64_eq _ now,
      appendInt64_eq (appendInt32 [] protocolVersion), fixedBytes]
    simp only [List.append_assoc]
  have joined : appendVarUstringB
      (appendVarUstringB (fixedBytes packet now) (packet.userAgent ++ userAgentName))
        packet.streamNumbers = fixedBytes packet now ++
      (appendVarUstringB [] (packet.userAgent ++ userAgentName) ++
        appendVarUstringB [] packet.streamNumbers) := by
    rw [appendVarUstringB_eq (appendVarUstringB _ _), appendVarUstringB_eq (fixedBytes packet now),
      List.append_assoc]
  rw [← joined, ← payload, encodeData, if_neg named]
  rfl

/-! ## What comes back -/

theorem readAddress_decodes {limit : Nat} [CursorLimit limit] {address : NetworkAddress}
    (sixteen : address.ipv6_4.length = 16) (memory : NetworkAddress) :
    Cursor.Decodes limit (readAddress memory) (addressBytes address) {
      memory with
      services := address.services
      ipv6_4 := address.ipv6_4
      port := address.port } := by
  have port : Cursor.Decodes limit getInt16 (appendInt16 [] address.port.toInt16)
      address.port.toInt16 := getInt16_decodes _
  have packed := port.map fun port => ({
    memory with
    services := address.services.toInt64.toUInt64
    ipv6_4 := address.ipv6_4
    port := port.toUInt16 } : NetworkAddress)
  simp only [UInt64.toUInt64_toInt64, UInt16.toUInt16_toInt16] at packed
  exact (getInt64_decodes _).bind
    ((readBlock_decodes (⟨address.ipv6_4, sixteen⟩ : Block 16)).bind packed)

theorem readStreams_at {s rest : UString} {i : Nat} (here : Cursor.At s i rest) :
    readStreams s i = .ok (rest, i) := by
  obtain ⟨inside, rfl⟩ := here
  rw [readStreams, substr, if_neg (Nat.not_lt.mpr inside), List.take_of_length_le (by simp)]

/-- A payload that a packet can have is decoded to what was sent, with the length of the
stream numbers in front of them. -/
theorem decodeData_fields {packet memory : PacketVersion} {now : Int64}
    (recv : packet.addrRecv.ipv6_4.length = 16) (sender : packet.addrFrom.ipv6_4.length = 16)
    (payload : memory.messagePayload = fixedBytes packet now ++
      (appendVarUstringB [] (packet.userAgent ++ userAgentName) ++
        appendVarUstringB [] packet.streamNumbers))
    (short : memory.messagePayload.length < intLimit) :
    decodeData memory = .ok {
      memory with
      version := protocolVersion
      services := nodeNetwork.toUInt64
      timestamp := now.toUInt64
      addrRecv := {
        memory.addrRecv with
        services := packet.addrRecv.services
        ipv6_4 := packet.addrRecv.ipv6_4
        port := packet.addrRecv.port }
      addrFrom := {
        memory.addrFrom with
        services := packet.addrFrom.services
        ipv6_4 := packet.addrFrom.ipv6_4
        port := packet.addrFrom.port }
      nonce := packet.nonce
      userAgent := packet.userAgent ++ userAgentName
      streamNumbers := appendVarUstringB [] packet.streamNumbers } := by
  have here := Cursor.At.start memory.messagePayload
  nth_rewrite 2 [payload] at here
  rw [fixedBytes] at here
  simp only [List.append_assoc] at here
  obtain ⟨version, here⟩ := (getInt32_decodes protocolVersion).at short here
  obtain ⟨services, here⟩ := (getInt64_decodes nodeNetwork).at short here
  obtain ⟨timestamp, here⟩ := (getInt64_decodes now).at short here
  obtain ⟨addrRecv, here⟩ := (readAddress_decodes recv memory.addrRecv).at short here
  obtain ⟨addrFrom, here⟩ := (readAddress_decodes sender memory.addrFrom).at short here
  obtain ⟨nonce, here⟩ := (getInt64_decodes packet.nonce.toInt64).at short here
  obtain ⟨userAgent, here⟩ := (getVarUstringB_decodes _).at short here
  rw [decodeData, Cursor.value, readData, Cursor.bind_of_ok version, Cursor.bind_of_ok services,
    Cursor.bind_of_ok timestamp, Cursor.bind_of_ok addrRecv, Cursor.bind_of_ok addrFrom,
    Cursor.bind_of_ok nonce, Cursor.bind_of_ok userAgent, Cursor.bind_of_ok (readStreams_at here)]
  rfl

/-! ## Positions -/

theorem getInt8_moves : Cursor.Moves (2 ^ 32) 1 getInt8 := by
  intro s start stop byte small read
  obtain ⟨_, _, rfl⟩ := getInt8_eq_ok.mp read
  exact advance_of_lt small

theorem getInt16_moves : Cursor.Moves (2 ^ 32) 2 getInt16 :=
  getInt8_moves.bind fun _ => getInt8_moves.map _

theorem getInt32_moves : Cursor.Moves (2 ^ 32) 4 getInt32 :=
  getInt8_moves.bind fun _ => getInt8_moves.bind fun _ => getInt8_moves.bind fun _ =>
    getInt8_moves.map _

theorem getInt64_moves : Cursor.Moves (2 ^ 32) 8 getInt64 :=
  getInt8_moves.bind fun _ => getInt8_moves.bind fun _ => getInt8_moves.bind fun _ =>
    getInt8_moves.bind fun _ => getInt8_moves.bind fun _ => getInt8_moves.bind fun _ =>
      getInt8_moves.bind fun _ => getInt8_moves.map _

theorem readBlock_moves (size : Nat) : Cursor.Moves (2 ^ 32) size (readBlock size) := by
  induction size with
  | zero => exact Cursor.Moves.pure _ _
  | succ size ih =>
      have moves : Cursor.Moves (2 ^ 32) (1 + size) (readBlock (size + 1)) :=
        getInt8_moves.bind fun byte => ih.map fun rest : Block size =>
          (⟨byte :: rest.toUString, by simp⟩ : Block (size + 1))
      rwa [Nat.add_comm 1 size] at moves

theorem readAddress_moves (address : NetworkAddress) :
    Cursor.Moves (2 ^ 32) 26 (readAddress address) :=
  getInt64_moves.bind fun _ => (readBlock_moves 16).bind fun _ => getInt16_moves.map _

/-- Behind a string that was written the cursor is not further than its end, even when the
length does not fit into the types that it passes through. -/
theorem getVarUstringB_stop {before after str value : UString} {stop : Nat}
    (small : before.length + 9 < 2 ^ 32)
    (read : getVarUstringB (before ++ (appendVarUstringB [] str ++ after)) before.length =
      .ok (value, stop)) :
    stop ≤ before.length + (appendVarUstringB [] str).length := by
  obtain ⟨word, start, readWord, text⟩ := getVarUstringB_eq_ok.mp read
  have found := declared_appendVarIntB before (str ++ after) (UInt64.ofNat str.length)
  have split : appendVarUstringB [] str ++ after =
      appendVarIntB [] (UInt64.ofNat str.length) ++ (str ++ after) := by
    rw [appendVarUstringB, List.append_assoc]
  have width := appendVarIntB_length_le (UInt64.ofNat str.length)
  rw [← split] at found
  obtain ⟨size, readSize, value⟩ := getVarIntB_declared found (by omega)
  cases readWord.symm.trans readSize
  obtain ⟨_, _, rfl⟩ := getUstring_eq_ok.mp text
  -- the length is only kept modulo `2^32`
  have length : size.toNat = str.length % 2 ^ 64 := by
    rw [‹size.toNat = _›, UInt64.toNat_ofNat']
  rw [toInt32_toInt64, length, appendVarUstringB, List.length_append, advance, Int.bmod_def]
  omega

theorem readStreams_eq_ok {s streams : UString} {i stop : Nat}
    (read : readStreams s i = .ok (streams, stop)) : streams = s.drop i := by
  unfold readStreams substr at read
  split at read
  next rest found =>
    split at found
    next => cases found
    next =>
      cases found
      cases read
      exact List.take_of_length_le (by simp)
  next => cases read

/-- What the payload holds behind the user agent is at least as long as the stream numbers
with their length in front. -/
theorem decodeData_streamNumbers {packet decoded memory : PacketVersion} {now : Int64}
    (recv : packet.addrRecv.ipv6_4.length = 16) (sender : packet.addrFrom.ipv6_4.length = 16)
    (payload : memory.messagePayload = fixedBytes packet now ++
      (appendVarUstringB [] (packet.userAgent ++ userAgentName) ++
        appendVarUstringB [] packet.streamNumbers))
    (read : decodeData memory = .ok decoded) :
    (appendVarUstringB [] packet.streamNumbers).length ≤ decoded.streamNumbers.length := by
  obtain ⟨_, read⟩ := Cursor.value_eq_ok.mp read
  obtain ⟨_, i, first, read⟩ := Cursor.bind_eq_ok.mp read
  obtain rfl : i = 4 := getInt32_moves (by decide) first
  obtain ⟨_, i, second, read⟩ := Cursor.bind_eq_ok.mp read
  obtain rfl : i = 12 := getInt64_moves (by decide) second
  obtain ⟨_, i, third, read⟩ := Cursor.bind_eq_ok.mp read
  obtain rfl : i = 20 := getInt64_moves (by decide) third
  obtain ⟨_, i, fourth, read⟩ := Cursor.bind_eq_ok.mp read
  obtain rfl : i = 46 := readAddress_moves _ (by decide) fourth
  obtain ⟨_, i, fifth, read⟩ := Cursor.bind_eq_ok.mp read
  obtain rfl : i = 72 := readAddress_moves _ (by decide) fifth
  obtain ⟨_, i, sixth, read⟩ := Cursor.bind_eq_ok.mp read
  obtain rfl : i = 80 := getInt64_moves (by decide) sixth
  obtain ⟨userAgent, stop, readAgent, read⟩ := Cursor.bind_eq_ok.mp read
  obtain ⟨streamNumbers, _, readStreams, read⟩ := Cursor.bind_eq_ok.mp read
  cases read
  have eighty := @fixedBytes_length packet now recv sender
  rw [payload, ← eighty] at readAgent
  have agent := getVarUstringB_stop (by omega) readAgent
  rw [readStreams_eq_ok readStreams, payload]
  simp only [List.length_drop, List.length_append]
  omega

/-- The stream numbers never come back as they were. -/
theorem not_roundTrips (packet memory : PacketVersion) (now : Int64)
    (recv : packet.addrRecv.ipv6_4.length = 16) (sender : packet.addrFrom.ipv6_4.length = 16) :
    ¬packet.RoundTrips now memory := by
  rintro ⟨encoded, decoded, encode, read, _, _, _, _, _, _, _, _, streams⟩
  cases (encodeData_eq packet now).symm.trans encode
  have long := decodeData_streamNumbers recv sender rfl read
  have positive := appendVarIntB_length_pos (UInt64.ofNat packet.streamNumbers.length)
  rw [streams, appendVarUstringB, List.length_append] at long
  omega

/-- The version packet that is sent to a node at 192.0.2.1, port 8444. -/
def sample : PacketVersion where
  magic := 0xE9BEB4D9
  command := strncpy [] 12
  length := 0
  checksum := strncpy [] 4
  messagePayload := []
  version := 0
  services := 0
  timestamp := 0
  addrRecv := ⟨0, 0, 1, [0, 0, 0, 0, 0, 0, 0, 0, 0, 0, 255, 255, 192, 0, 2, 1], 8444⟩
  addrFrom := ⟨0, 0, 1, [0, 0, 0, 0, 0, 0, 0, 0, 0, 0, 255, 255, 127, 0, 0, 1], 8444⟩
  nonce := 13047144905766565651
  userAgent := []
  streamNumbers := [1]

/-- Without any stream the length of the list comes back as a stream. -/
theorem not_roundTrips_none : ¬{ sample with streamNumbers := [] }.RoundTrips 0 sample :=
  not_roundTrips { sample with streamNumbers := [] } sample 0 rfl rfl

/-- The stream of the sample comes back as two, the first of which is the length. -/
theorem not_roundTrips_sample : ¬sample.RoundTrips 1400000000 sample := by
  rintro ⟨encoded, decoded, encode, read, _, _, _, _, _, _, _, _, streams⟩
  cases (encodeData_eq sample 1400000000).symm.trans encode
  cases (@decodeData_fields sample _ 1400000000 rfl rfl (by rfl) (by decide)).symm.trans read
  cases streams

end BitMRC.PacketVersion

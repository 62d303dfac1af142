import BitMRC.Utils.SocketCalls
import BitMRC.Wire.Frame

/-!
# Frames in segments

However the network cuts a stream of frames into segments, `getCommand` reads the same
packets from it: each of its fields is read by loops that ask `recv` again for what is
missing.
-/

namespace BitMRC

open Foundation UString

theorem length_checksum (byte0 byte1 byte2 byte3 : UInt8) :
    [byte0, byte1, byte2, byte3].length = 4 := rfl

/-- `getCommand`, one `recv` at a time. -/
def SocketCalls.getCommand (recv : SocketCalls.Recv) : Foundation.Calls UInt8 Exn Packet := do
  let magic ← getInt32 recv
  let command ← getUstring recv 12
  let length ← getInt32 recv
  let checksum0 ← getInt8 recv
  let checksum1 ← getInt8 recv
  let checksum2 ← getInt8 recv
  let checksum3 ← getInt8 recv
  let messagePayload ← getUstring recv length.toInt
  return {
    magic := magic.toUInt32
    command := strncpy command 12
    length := length.toUInt32
    checksum := ⟨[checksum0, checksum1, checksum2, checksum3],
      length_checksum checksum0 checksum1 checksum2 checksum3⟩
    messagePayload }

/-- A complete frame: any header whose length field is an `int`, and as many bytes. -/
structure WireFrame where
  magic : UInt32
  command : Block 12
  length : UInt32
  checksum : Block 4
  payload : UString
  length_lt : length.toNat < 2 ^ 31
  complete : payload.length = length.toNat

namespace WireFrame

variable (frame : WireFrame)

def bytes : UString :=
  appendInt32 [] frame.magic.toInt32 ++ (frame.command.toUString ++
    (appendInt32 [] frame.length.toInt32 ++ frame.checksum.toUString)) ++ frame.payload

/-- The packet with these fields; the command ends at its first zero. -/
def packet : Packet where
  magic := frame.magic
  command := strncpy frame.command.toUString 12
  length := frame.length
  checksum := frame.checksum
  messagePayload := frame.payload

/-- The reader of whole streams returns the packet. -/
theorem getCommand_bytes (ending : Ending) (before rest : UString) :
    Packet.getCommand ending (before ++ (frame.bytes ++ rest)) before.length =
      .ok (frame.packet, before.length + frame.bytes.length) := by
  have size : frame.length.toInt32.toInt = frame.payload.length := by
    have small := frame.length_lt
    have word : frame.length.toInt32 = Int32.ofNat frame.length.toNat := by
      rw [← UInt32.toInt32_ofNat', UInt32.ofNat_toNat]
    rw [word, Int32.toInt_ofNat_of_lt small, frame.complete]
  have received := Packet.getCommand_receives_fields ending frame.magic.toInt32
    frame.command frame.checksum size
  rw [Packet.ofFields, UInt32.toUInt32_toInt32, UInt32.toUInt32_toInt32] at received
  exact received.whole before rest

end WireFrame

theorem SocketCalls.getCommand_follows {recv : SocketCalls.Recv} (progresses : recv.Progresses)
    (ending : Ending) :
    Calls.Follows (SocketCalls.getCommand recv) (Packet.getCommand ending) :=
  (SocketCalls.getInt32_follows progresses).bind fun _ =>
    (SocketCalls.getString_follows progresses 12).bind fun _ =>
      (SocketCalls.getInt32_follows progresses).bind fun length =>
        (SocketCalls.getInt8_follows progresses).bind fun _ =>
          (SocketCalls.getInt8_follows progresses).bind fun _ =>
            (SocketCalls.getInt8_follows progresses).bind fun _ =>
              (SocketCalls.getInt8_follows progresses).bind fun _ =>
                (SocketCalls.getString_follows progresses length.toInt).bind fun _ =>
                  Calls.Follows.pure _

/-- Whatever `recv` returns in each call, `getCommand` reads the packet of the frame and
stops behind it, and the string readers return the next bytes. -/
theorem segmentation_irrelevant {recv : SocketCalls.Recv} (progresses : recv.Progresses) :
    (∀ (frame : WireFrame) (before rest : UString) (call : Nat), ∃ least call', ∀ rounds ≥ least,
      SocketCalls.getCommand recv rounds (before ++ (frame.bytes ++ rest)) before.length call =
        some (.ok (frame.packet, before.length + frame.bytes.length, call'))) ∧
    ∀ (received : UString) (start call : Nat) (len : Int), 0 ≤ len →
      start + len.toNat ≤ received.length → ∃ least call', ∀ rounds ≥ least,
      SocketCalls.getUstring recv len rounds received start call =
        some (.ok ((received.drop start).take len.toNat, start + len.toNat, call')) ∧
      SocketCalls.getString recv len rounds received start call =
        some (.ok ((received.drop start).take len.toNat, start + len.toNat, call')) := by
  constructor
  · intro frame before rest call
    exact SocketCalls.getCommand_follows progresses .closed _ _ call _ _
      (frame.getCommand_bytes .closed before rest)
  · intro received start call len nonnegative inside
    have read : SocketUString.getUstring .closed len received start =
        .ok ((received.drop start).take len.toNat, start + len.toNat) := by
      unfold SocketUString.getUstring SocketUString.recvUstring
      split
      next none =>
        subst none
        simp
      next nonzero => rw [if_neg (Int.not_lt.mpr nonnegative)]
    obtain ⟨least, call', follows⟩ :=
      SocketCalls.getString_follows progresses len received start call _ _ read
    exact ⟨least, call', fun rounds enough => ⟨follows rounds enough, follows rounds enough⟩⟩

/-- A network that hands over one byte at a time. -/
def byteByByte : SocketCalls.Recv := fun _ _ => ⟨1, false⟩

theorem byteByByte_progresses : byteByByte.Progresses :=
  fun _ _ positive => ⟨Int.le_refl _, Int.ofNat_le.mpr positive⟩

theorem segmentation_irrelevant_sample : ∃ least call', ∀ rounds ≥ least,
    SocketCalls.getUstring byteByByte 3 rounds [1, 2, 3, 4] 0 0 =
      some (.ok ([1, 2, 3], 3, call')) ∧
    SocketCalls.getString byteByByte 3 rounds [1, 2, 3, 4] 0 0 =
      some (.ok ([1, 2, 3], 3, call')) :=
  (segmentation_irrelevant byteByByte_progresses).2 [1, 2, 3, 4] 0 0 3 (by decide) (by decide)

end BitMRC

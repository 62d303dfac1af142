import BitMRC.Wire.Packets

/-!
# Complete payloads

A payload is decoded when the fields of its packet are all there.  Integers must lie
inside the payload, except that a `VarInt_B` behind the end is read as 0.  A string must
only begin inside the payload, so that a version may stop short of its user agent as
long as the cursor does not run past the end.
-/

namespace BitMRC

open Foundation UString

/-! ## Objects -/

/-- The header of an object is there. -/
def Object.Complete (payload : UString) : Prop :=
  20 ≤ payload.length ∧ ∃ version middle, getVarIntB payload 20 = .ok (version, middle) ∧
    ∃ stream stop, getVarIntB payload middle = .ok (stream, stop)

/-- The fields in front of the user agent are there, and the user agent can be taken with
the cursor ending inside the payload. -/
def PacketVersion.Complete (payload : UString) : Prop :=
  80 ≤ payload.length ∧ ∃ userAgent stop, getVarUstringB payload 80 = .ok (userAgent, stop) ∧
    stop ≤ payload.length

end BitMRC

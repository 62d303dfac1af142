import BitMRC.Foundation.Stream
import BitMRC.Utils.VarInt

/-!
# Sockets: `class socket_ustring`

A socket delivers what the peer sends until the connection ends, in one of the two
ways that the readers tell apart.  What is sent arrives, so that a writer takes and
returns everything that was sent.
-/

namespace BitMRC

open Foundation

/-- How a connection ends. -/
inductive Ending where
  /-- `recv` returns 0. -/
  | closed
  /-- `recv` fails. -/
  | failed
  deriving DecidableEq

/-- What the readers throw at the end of the connection. -/
def Ending.exn : Ending → Exn
  | closed => connectionClosed
  | failed => connectionError

/-- What the readers of strings end with there.  With `EAGAIN` or `EWOULDBLOCK` in `errno`, where
an earlier call left it, they ask a closed connection again and again. -/
def Ending.cut (again : Bool) : Ending → Exn
  | closed => if again then .undefined else connectionClosed
  | failed => connectionError

/-- Readers of `socket_ustring`: the buffer is everything that the peer sends, and the
position is how much of it was received. -/
abbrev SocketReader (α : Type) := Cursor UInt8 Exn α

namespace SocketUString

/-! ## Writers -/

def sendByte (out : UString) (i : UInt8) : UString := out ++ [i]

def sendInt32 (out : UString) (i : Int32) : UString :=
  let b1 := i.toUInt32.toUInt8
  let b2 := (i.toUInt32 >>> 8).toUInt8
  let b3 := (i.toUInt32 >>> 16).toUInt8
  let b4 := (i.toUInt32 >>> 24).toUInt8
  sendByte (sendByte (sendByte (sendByte out b4) b3) b2) b1

def sendInt16 (out : UString) (i : Int16) : UString :=
  let b1 := i.toUInt16.toUInt8
  let b2 := (i.toUInt16 >>> 8).toUInt8
  sendByte (sendByte out b2) b1

def sendInt64 (out : UString) (i : Int64) : UString :=
  let b1 := i.toUInt64.toUInt8
  let b2 := (i.toUInt64 >>> 8).toUInt8
  let b3 := (i.toUInt64 >>> 16).toUInt8
  let b4 := (i.toUInt64 >>> 24).toUInt8
  let b5 := (i.toUInt64 >>> 32).toUInt8
  let b6 := (i.toUInt64 >>> 40).toUInt8
  let b7 := (i.toUInt64 >>> 48).toUInt8
  let b8 := (i.toUInt64 >>> 56).toUInt8
  sendByte (sendByte (sendByte (sendByte (sendByte (sendByte
    (sendByte (sendByte out b8) b7) b6) b5) b4) b3) b2) b1

def sendVarIntB (out : UString) (i : UInt64) : UString :=
  if i < 253 then
    sendByte out i.toUInt8
  else if 253 ≤ i ∧ i < 65536 then
    sendInt16 (sendByte out 253) i.toUInt16.toInt16
  else if 65536 ≤ i ∧ i < 4294967296 then
    sendInt32 (sendByte out 254) i.toUInt32.toInt32
  else if 4294967296 ≤ i then
    sendInt64 (sendByte out 255) i.toInt64
  else
    out

/-- `sendUstring(str)` and `sendString(str)`, which send byte after byte. -/
def sendWhole (out str : UString) : UString := str.foldl sendByte out

def sendVarInt32 (out : UString) (i : UInt32) : UString := VarInt.put32 sendByte out i

/-- The bytes are put into a string of their own first. -/
def sendVarInt64 (out : UString) (i : UInt64) : Except Exn UString := do
  let tmp ← VarInt.append64 [] i
  return sendWhole out tmp

/-- `sendVarUstring_B` and `sendVarString_B`. -/
def sendVarUstringB (out str : UString) : UString :=
  sendWhole (sendVarIntB out (UInt64.ofNat str.length)) str

def sendVarString (out str : UString) : UString :=
  sendWhole (sendVarInt32 out (UInt32.ofNat str.length)) str

/-- Other than for a `string`, the length is sent as a number of 64 bits. -/
def sendVarUstring (out str : UString) : Except Exn UString := do
  let out ← sendVarInt64 out (UInt64.ofNat str.length)
  return sendWhole out str

/-- `sendUstring(str, len)`; one `send` takes all bytes. -/
def sendUstring (out str : UString) (len : Int) : Except Exn UString :=
  -- the comparison is one of unsigned numbers
  if str.length < (len % 2 ^ 32).toNat then
    .error (.runtimeError "Not enough bytes")
  else
    .ok (out ++ str.take len.toNat)

/-! ## Readers -/

variable (ending : Ending)

def getInt8 : SocketReader UInt8 := fun received i =>
  if inside : i < received.length then .ok (received[i], i + 1) else .error ending.exn

def getInt32 : SocketReader Int32 := do
  let b4 ← getInt8 ending
  let b3 ← getInt8 ending
  let b2 ← getInt8 ending
  let b1 ← getInt8 ending
  return ((b4.toUInt32 <<< 24) + (b3.toUInt32 <<< 16) + (b2.toUInt32 <<< 8)
    + b1.toUInt32).toInt32

def getInt16 : SocketReader Int16 := do
  let b2 ← getInt8 ending
  let b1 ← getInt8 ending
  return ((b2.toUInt16 <<< 8) + b1.toUInt16).toInt16

def getInt64 : SocketReader Int64 := do
  let b8 ← getInt8 ending
  let b7 ← getInt8 ending
  let b6 ← getInt8 ending
  let b5 ← getInt8 ending
  let b4 ← getInt8 ending
  let b3 ← getInt8 ending
  let b2 ← getInt8 ending
  let b1 ← getInt8 ending
  return ((b8.toUInt64 <<< 56) + (b7.toUInt64 <<< 48) + (b6.toUInt64 <<< 40)
    + (b5.toUInt64 <<< 32) + (b4.toUInt64 <<< 24) + (b3.toUInt64 <<< 16)
    + (b2.toUInt64 <<< 8) + b1.toUInt64).toInt64

def getVarIntB : SocketReader Int64 := do
  let firstByte ← getInt8 ending
  if firstByte < 253 then
    return firstByte.toUInt64.toInt64
  else if firstByte = 253 then
    let b2 ← getInt8 ending
    let b1 ← getInt8 ending
    return ((b2.toUInt64 <<< 8) + b1.toUInt64).toInt64
  else if firstByte = 254 then
    let b4 ← getInt8 ending
    let b3 ← getInt8 ending
    let b2 ← getInt8 ending
    let b1 ← getInt8 ending
    return ((b4.toUInt32 <<< 24) + (b3.toUInt32 <<< 16) + (b2.toUInt32 <<< 8)
      + b1.toUInt32).toUInt64.toInt64
  else
    getInt64 ending

/-- The loops stop at nothing but their counter; an overrun returns 0. -/
def varIntSource {W : Type} [OfNat W 0] : VarInt.Source W where
  getInt8 := getInt8 ending
  more _ := return true
  moreSkipped _ := return true
  overrun := return 0

def getVarInt32 : SocketReader Int32 := VarInt.get32 (varIntSource ending)

def getVarInt64 : SocketReader Int64 := VarInt.get64 (varIntSource ending)

/-- `new unsigned char[len]`, then `recv` until all of it is there, or until the connection
ends and the loop with `cut`. -/
def recvUstring (cut : Exn) (len : Int) : SocketReader UString := fun received i =>
  if len = 0 then
    .ok ([], i)
  else if len < 0 then
    .error .badArrayNewLength
  else if i + len.toNat ≤ received.length then
    .ok ((received.drop i).take len.toNat, i + len.toNat)
  else
    .error cut

/-- `getUstring(len)`, while `errno` says neither `EAGAIN` nor `EWOULDBLOCK`. -/
def getUstring (len : Int) : SocketReader UString := recvUstring ending.exn len

/-- `getVarUstring` and `getVarString`. -/
def getVarUstring : SocketReader UString := do
  let len ← getVarInt32 ending
  getUstring ending len.toInt

/-- `getVarUstring_B` and `getVarString_B`. -/
def getVarUstringB : SocketReader UString := do
  let len ← getVarIntB ending
  getUstring ending len.toInt32.toInt

/-! ## The writers append the encodings of `ustring` -/

variable {ending}

theorem sendVarIntB_eq (out : UString) (i : UInt64) :
    sendVarIntB out i = out ++ UString.appendVarIntB [] i :=
  UString.appendVarIntB_eq out i

theorem sendVarInt32_eq (out : UString) (i : UInt32) :
    sendVarInt32 out i = out ++ VarInt.groupBytes i.toNat :=
  VarInt.put32_eq (fun _ _ => rfl) out i

theorem sendInt32_eq (out : UString) (i : Int32) :
    sendInt32 out i = out ++ UString.appendInt32 [] i :=
  UString.appendInt32_eq out i

theorem foldl_sendByte (out bytes : UString) : bytes.foldl sendByte out = out ++ bytes := by
  induction bytes generalizing out with
  | nil => exact (List.append_nil out).symm
  | cons byte rest ih =>
      rw [List.foldl_cons, ih, sendByte, List.append_assoc, List.singleton_append]

theorem sendWhole_eq (out str : UString) : sendWhole out str = out ++ str :=
  foldl_sendByte out str

theorem sendVarUstringB_eq (out str : UString) :
    sendVarUstringB out str = out ++ UString.appendVarUstringB [] str := by
  rw [sendVarUstringB, sendWhole_eq, sendVarIntB_eq, List.append_assoc]
  rfl

/-- A string is sent as a whole with its own length. -/
theorem sendUstring_eq (out : UString) {str : UString} {len : Int} (equal : len = str.length)
    (short : str.length < intLimit) : sendUstring out str len = .ok (out ++ str) := by
  simp only [intLimit] at short
  subst equal
  rw [sendUstring, if_neg (by omega), Int.toNat_natCast, List.take_length]

/-! ## The readers return what was sent -/

/-- Complete values are returned; inside a value the connection ends. -/
abbrev Receives {α : Type} (ending : Ending) (reader : SocketReader α) (encoding : UString)
    (value : α) : Prop :=
  Cursor.Reads ending.exn reader encoding value

theorem getInt8_receives (byte : UInt8) : Receives ending (getInt8 ending) [byte] byte := by
  constructor
  · intro before after
    simp [getInt8]
  · intro before n inside
    have none : n = 0 := by simpa using inside
    simp [getInt8, none]

theorem getInt32_receives (i : Int32) :
    Receives ending (getInt32 ending) (UString.appendInt32 [] i) i := by
  have packed : Receives ending (pure (((i.toUInt32 >>> 24).toUInt8.toUInt32 <<< 24) +
      ((i.toUInt32 >>> 16).toUInt8.toUInt32 <<< 16) +
      ((i.toUInt32 >>> 8).toUInt8.toUInt32 <<< 8) + i.toUInt32.toUInt8.toUInt32).toInt32) [] i := by
    rw [UString.word32_eq]
    exact Cursor.Reads.pure _ _
  exact (getInt8_receives _).bind ((getInt8_receives _).bind ((getInt8_receives _).bind
    ((getInt8_receives _).bind packed)))

/-- A reader that starts with one byte. -/
theorem receives_cons {α : Type} {next : UInt8 → SocketReader α} {byte : UInt8} {rest : UString}
    {value : α} (tail : Receives ending (next byte) rest value) :
    Receives ending (getInt8 ending >>= next) (byte :: rest) value :=
  (getInt8_receives byte).bind tail

theorem receives_return {α : Type} {packed value : α} (equal : packed = value) :
    Receives ending (pure packed) [] value :=
  equal ▸ Cursor.Reads.pure _ packed

theorem getInt16_receives (i : Int16) :
    Receives ending (getInt16 ending) (UString.appendInt16 [] i) i :=
  receives_cons (receives_cons (receives_return (congrArg UInt16.toInt16 (UString.word16_eq _))))

theorem getInt64_receives (i : Int64) :
    Receives ending (getInt64 ending) (UString.appendInt64 [] i) i :=
  receives_cons (receives_cons (receives_cons (receives_cons (receives_cons (receives_cons
    (receives_cons (receives_cons
      (receives_return (congrArg UInt64.toInt64 (UString.word64_eq _))))))))))

theorem getVarIntB_receives (v : UInt64) :
    Receives ending (getVarIntB ending) (UString.appendVarIntB [] v) v.toInt64 := by
  rcases UString.appendVarIntB_cases v with ⟨small, bytes⟩ | ⟨low, high, bytes⟩ |
    ⟨low, high, bytes⟩ | ⟨low, bytes⟩ <;> rw [bytes] <;> apply receives_cons
  · rw [if_pos (UString.toUInt8_lt small)]
    exact receives_return (congrArg UInt64.toInt64 (UString.word8_toUInt64 small))
  · exact receives_cons (receives_cons (receives_return
      (congrArg UInt64.toInt64 (UString.word16_toUInt64 high))))
  · exact receives_cons (receives_cons (receives_cons (receives_cons (receives_return
      (congrArg UInt64.toInt64 (UString.word32_toUInt64 high))))))
  · exact getInt64_receives v.toInt64

theorem varIntSource_serves {W : Type} [OfNat W 0] (limit : Nat) :
    (varIntSource ending : VarInt.Source W).Serves limit where
  getInt8 byte before after _ := (getInt8_receives byte).whole before after
  more _ _ _ _ _ := rfl
  moreSkipped _ _ _ _ _ := rfl

theorem getUstring_receives {len : Int} {bytes : UString} (equal : len = bytes.length) :
    Receives ending (getUstring ending len) bytes bytes := by
  subst equal
  by_cases empty : bytes = []
  · subst empty
    exact Cursor.Reads.pure _ _
  · have positive := List.length_pos_iff.mpr empty
    have nonzero : ¬((bytes.length : Int) = 0) := by omega
    have nonnegative : ¬((bytes.length : Int) < 0) := by omega
    constructor
    · intro before after
      simp [getUstring, recvUstring, empty]
    · intro before n inside
      have outside : ¬(before.length + bytes.length ≤ (before ++ bytes.take n).length) := by
        rw [List.length_append, List.length_take]
        omega
      rw [getUstring, recvUstring, if_neg nonzero, if_neg nonnegative, Int.toNat_natCast,
        if_neg outside]

theorem getVarUstringB_receives {str : UString} (short : str.length < intLimit) :
    Receives ending (getVarUstringB ending) (UString.appendVarUstringB [] str) str :=
  (getVarIntB_receives _).bind (getUstring_receives (UString.length_toInt32 short))

/-! ## Enough bytes -/

theorem getInt8_fixed (limit : Nat) : Cursor.Fixed limit 1 ending.exn (getInt8 ending) := by
  intro received i _
  constructor
  · intro inside
    exact ⟨received[i], dif_pos (show i < received.length from inside)⟩
  · intro missing
    exact dif_neg (by omega)

theorem getInt32_fixed (limit : Nat) : Cursor.Fixed limit 4 ending.exn (getInt32 ending) :=
  (getInt8_fixed limit).bind fun _ => (getInt8_fixed limit).bind fun _ =>
    (getInt8_fixed limit).bind fun _ => (getInt8_fixed limit).map _

end SocketUString

end BitMRC

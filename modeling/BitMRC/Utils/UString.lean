import BitMRC.Foundation.Cursor
import BitMRC.Utils.Exn
import Mathlib.Algebra.Group.Nat.Defs
import Mathlib.Algebra.Ring.Int.Defs

/-!
# Byte strings: `class ustring`

`ustring` is a `basic_string<unsigned char>` with writers that append
big-endian integers and length-prefixed strings, and readers that take a cursor
`unsigned int& i`.  `std::string` carries the same bytes and is not told apart.

Operands of `+` inside one reader are evaluated from left to right, as gcc does.

Arrays of a fixed size are a `Block`, and the C string functions that the program
applies to arrays stand at the end of the module.
-/

namespace BitMRC

open Foundation

/-- `ustring`, and `std::string`. -/
abbrev UString := List UInt8

/-- Readers of `ustring`: the buffer is `*this`, the position is `i`. -/
abbrev Reader (α : Type) := Cursor UInt8 Exn α

/-- Strings the program handles are shorter than this: lengths and cursors then
survive the conversions between `int`, `unsigned int` and `size_t`. -/
def intLimit : Nat := 2 ^ 31

/-- The largest payload of a valid object is far below it. -/
theorem lt_intLimit {n : Nat} (small : n ≤ 0x40000) : n < intLimit :=
  Nat.lt_of_le_of_lt small (by decide)

/-- A bound on the length of a string below which no cursor wraps around. -/
class CursorLimit (limit : Nat) : Prop where
  le : limit ≤ 2 ^ 32

instance : CursorLimit intLimit := ⟨by decide⟩

instance : CursorLimit (2 ^ 32) := ⟨Nat.le_refl _⟩

namespace UString

/-! ## Conversions -/

/-- `size_t` value of an `int`. -/
def sizeT (len : Int) : Nat := (len % 2 ^ 64).toNat

/-- `int` value of a `size_t` or `unsigned int` expression. -/
def toInt (size : Int) : Int := size.bmod (2 ^ 32)

/-- `i += len` for `unsigned int& i` and `int len`. -/
def advance (i : Nat) (len : Int) : Nat := ((i + len) % 2 ^ 32).toNat

/-- `basic_string::substr`. -/
def substr (s : UString) (pos n : Nat) : Except Exn UString :=
  if s.length < pos then .error .outOfRange else .ok ((s.drop pos).take n)

/-! ## Writers -/

def appendInt8 (s : UString) (i : UInt8) : UString := s ++ [i]

def appendInt16 (s : UString) (i : Int16) : UString :=
  let b1 := i.toUInt16.toUInt8
  let b2 := (i.toUInt16 >>> 8).toUInt8
  appendInt8 (appendInt8 s b2) b1

def appendInt32 (s : UString) (i : Int32) : UString :=
  let b1 := i.toUInt32.toUInt8
  let b2 := (i.toUInt32 >>> 8).toUInt8
  let b3 := (i.toUInt32 >>> 16).toUInt8
  let b4 := (i.toUInt32 >>> 24).toUInt8
  appendInt8 (appendInt8 (appendInt8 (appendInt8 s b4) b3) b2) b1

def appendInt64 (s : UString) (i : Int64) : UString :=
  let b1 := i.toUInt64.toUInt8
  let b2 := (i.toUInt64 >>> 8).toUInt8
  let b3 := (i.toUInt64 >>> 16).toUInt8
  let b4 := (i.toUInt64 >>> 24).toUInt8
  let b5 := (i.toUInt64 >>> 32).toUInt8
  let b6 := (i.toUInt64 >>> 40).toUInt8
  let b7 := (i.toUInt64 >>> 48).toUInt8
  let b8 := (i.toUInt64 >>> 56).toUInt8
  appendInt8 (appendInt8 (appendInt8 (appendInt8 (appendInt8 (appendInt8
    (appendInt8 (appendInt8 s b8) b7) b6) b5) b4) b3) b2) b1

def appendVarIntB (s : UString) (i : UInt64) : UString :=
  if i < 253 then
    appendInt8 s i.toUInt8
  else if 253 ≤ i ∧ i < 65536 then
    appendInt16 (appendInt8 s 253) i.toUInt16.toInt16
  else if 65536 ≤ i ∧ i < 4294967296 then
    appendInt32 (appendInt8 s 254) i.toUInt32.toInt32
  else if 4294967296 ≤ i then
    appendInt64 (appendInt8 s 255) i.toInt64
  else
    s

/-- `appendVarUstring_B` and `appendVarString_B`. -/
def appendVarUstringB (s str : UString) : UString :=
  appendVarIntB s (UInt64.ofNat str.length) ++ str

/-! ## Readers -/

def getInt8 : Reader UInt8 := fun s i =>
  if inside : i < s.length then
    .ok (s[i], advance i 1)
  else
    .error (.runtimeError "ustring out of range")

def getInt16 : Reader Int16 := do
  let b2 ← getInt8
  let b1 ← getInt8
  return ((b2.toUInt16 <<< 8) + b1.toUInt16).toInt16

def getInt32 : Reader Int32 := do
  let b4 ← getInt8
  let b3 ← getInt8
  let b2 ← getInt8
  let b1 ← getInt8
  return ((b4.toUInt32 <<< 24) + (b3.toUInt32 <<< 16) + (b2.toUInt32 <<< 8)
    + b1.toUInt32).toInt32

def getInt64 : Reader Int64 := do
  let b8 ← getInt8
  let b7 ← getInt8
  let b6 ← getInt8
  let b5 ← getInt8
  let b4 ← getInt8
  let b3 ← getInt8
  let b2 ← getInt8
  let b1 ← getInt8
  return ((b8.toUInt64 <<< 56) + (b7.toUInt64 <<< 48) + (b6.toUInt64 <<< 40)
    + (b5.toUInt64 <<< 32) + (b4.toUInt64 <<< 24) + (b3.toUInt64 <<< 16)
    + (b2.toUInt64 <<< 8) + b1.toUInt64).toInt64

/-- The bytes of `getVarInt_B` behind its first byte. -/
def getVarIntBTail (firstByte : UInt8) : Reader Int64 :=
  if firstByte < 253 then
    return firstByte.toUInt64.toInt64
  else if firstByte = 253 then do
    let b2 ← getInt8
    let b1 ← getInt8
    return ((b2.toUInt64 <<< 8) + b1.toUInt64).toInt64
  else if firstByte = 254 then do
    let b4 ← getInt8
    let b3 ← getInt8
    let b2 ← getInt8
    let b1 ← getInt8
    return ((b4.toUInt32 <<< 24) + (b3.toUInt32 <<< 16) + (b2.toUInt32 <<< 8)
      + b1.toUInt32).toUInt64.toInt64
  else
    getInt64

/-- At or behind the end of the string the value is 0 and the cursor stays. -/
def getVarIntB : Reader Int64 := fun s i =>
  if s.length ≤ i then .ok (0, i) else (getInt8 >>= getVarIntBTail) s i

/-- `getUstring` and `getString`. -/
def getUstring (len : Int) : Reader UString := fun s i =>
  match substr s i (sizeT len) with
  | .ok ret => .ok (ret, advance i len)
  | .error failure => .error failure

/-- `getVarUstring_B` and `getVarString_B`. -/
def getVarUstringB : Reader UString := do
  let len ← getVarIntB
  getUstring len.toInt32.toInt

def getRest : Reader UString := fun s i =>
  match substr s i (s.length - i) with
  | .ok ret => .ok (ret, s.length % 2 ^ 32)
  | .error failure => .error failure

end UString

/-! ## Arrays and C strings -/

/-- Byte arrays of a fixed size. -/
def Block (size : Nat) : Type := { bytes : UString // bytes.length = size }

instance (size : Nat) : DecidableEq (Block size) :=
  inferInstanceAs (DecidableEq { bytes : UString // bytes.length = size })

namespace Block

variable {size : Nat}

/-- The bytes of a block. -/
def toUString (block : Block size) : UString := block.val

@[simp] theorem toUString_length (block : Block size) : block.toUString.length = size :=
  block.property

/-- `n` bytes from `offset` on. -/
def slice (block : Block size) (offset n : Nat) (inside : offset + n ≤ size) : Block n :=
  ⟨(block.toUString.drop offset).take n, by simp; omega⟩

@[ext] theorem ext {left right : Block size} (equal : left.toUString = right.toUString) :
    left = right := Subtype.ext equal

end Block

/-- The bytes in front of the first zero. -/
def cStr (s : UString) : UString := s.takeWhile (· ≠ 0)

/-- `strncpy` into an array of `n` bytes. -/
def strncpy (src : UString) (n : Nat) : Block n :=
  let copied := (cStr src).take n
  ⟨copied ++ List.replicate (n - copied.length) 0, by
    have fits : copied.length ≤ n := (cStr src).length_take_le n
    rw [List.length_append, List.length_replicate, Nat.add_sub_cancel' fits]⟩

/-- `strcpy` over the old contents `c` of a buffer. -/
def strcpy (c src : UString) : UString :=
  let copied := cStr src ++ [0]
  copied ++ c.drop copied.length

end BitMRC

import BitMRC.Foundation.Stream
import BitMRC.Utils.VarInt

/-!
# Files: `class file_ustring`

The writers put the same bytes into a file that those of `ustring` put behind a
string; a writer takes and returns the contents of the file.  The readers throw
the code 1 at the end of the file, and nothing else but `bad_array_new_length`,
for a negative length.
-/

namespace BitMRC

open Foundation

/-- Readers of `file_ustring`: the buffer is the file. -/
abbrev FileReader (α : Type) := Cursor UInt8 Exn α

namespace FileUString

/-! ## Writers -/

def writeByte (file : UString) (i : UInt8) : UString := file ++ [i]

def writeInt64 (file : UString) (i : Int64) : UString :=
  let b1 := i.toUInt64.toUInt8
  let b2 := (i.toUInt64 >>> 8).toUInt8
  let b3 := (i.toUInt64 >>> 16).toUInt8
  let b4 := (i.toUInt64 >>> 24).toUInt8
  let b5 := (i.toUInt64 >>> 32).toUInt8
  let b6 := (i.toUInt64 >>> 40).toUInt8
  let b7 := (i.toUInt64 >>> 48).toUInt8
  let b8 := (i.toUInt64 >>> 56).toUInt8
  writeByte (writeByte (writeByte (writeByte (writeByte (writeByte
    (writeByte (writeByte file b8) b7) b6) b5) b4) b3) b2) b1

def writeInt32 (file : UString) (i : Int32) : UString :=
  let b1 := i.toUInt32.toUInt8
  let b2 := (i.toUInt32 >>> 8).toUInt8
  let b3 := (i.toUInt32 >>> 16).toUInt8
  let b4 := (i.toUInt32 >>> 24).toUInt8
  writeByte (writeByte (writeByte (writeByte file b4) b3) b2) b1

def writeInt16 (file : UString) (i : Int16) : UString :=
  let b1 := i.toUInt16.toUInt8
  let b2 := (i.toUInt16 >>> 8).toUInt8
  writeByte (writeByte file b2) b1

def writeVarIntB (file : UString) (i : UInt64) : UString :=
  if i < 253 then
    writeByte file i.toUInt8
  else if 253 ≤ i ∧ i < 65536 then
    writeInt16 (writeByte file 253) i.toUInt16.toInt16
  else if 65536 ≤ i ∧ i < 4294967296 then
    writeInt32 (writeByte file 254) i.toUInt32.toInt32
  else if 4294967296 ≤ i then
    writeInt64 (writeByte file 255) i.toInt64
  else
    file

def writeVarInt32 (file : UString) (i : UInt32) : UString := VarInt.put32 writeByte file i

def writeUstring (file str : UString) : UString := file ++ str

/-- The bytes are put into a string of their own first. -/
def writeVarInt64 (file : UString) (i : UInt64) : Except Exn UString := do
  let tmp ← VarInt.append64 [] i
  return writeUstring file tmp

/-- `writeVarUstring` and `writeVarString`. -/
def writeVarUstring (file str : UString) : UString :=
  writeVarInt32 file (UInt32.ofNat str.length) ++ str

def writeVarUstringB (file str : UString) : UString :=
  writeVarIntB file (UInt64.ofNat str.length) ++ str

/-! ## Readers -/

def getInt8 : FileReader UInt8 := fun file i =>
  if inside : i < file.length then .ok (file[i], i + 1) else .error (.code 1)

def getInt16 : FileReader Int16 := do
  let b2 ← getInt8
  let b1 ← getInt8
  return ((b2.toUInt16 <<< 8) + b1.toUInt16).toInt16

def getInt32 : FileReader Int32 := do
  let b4 ← getInt8
  let b3 ← getInt8
  let b2 ← getInt8
  let b1 ← getInt8
  return ((b4.toUInt32 <<< 24) + (b3.toUInt32 <<< 16) + (b2.toUInt32 <<< 8)
    + b1.toUInt32).toInt32

def getInt64 : FileReader Int64 := do
  let b8 ← getInt8
  let b7 ← getInt8
  let b6 ← getInt8
  let b5 ← getInt8
  let b4 ← getInt8
  let b3 ← getInt8
  let b2 ← getInt8
  let b1 ← getInt8
  return ((b8.toUInt64 <<< 56) + (b7.toUInt64 <<< 48) + (b6.toUInt64 <<< 40)
    + (b5.toUInt64 <<< 32) + (b4.toUInt64 <<< 24) + (b3.toUInt64 <<< 16)
    + (b2.toUInt64 <<< 8) + b1.toUInt64).toInt64

def getVarIntB : FileReader Int64 := do
  let firstByte ← getInt8
  if firstByte < 253 then
    return firstByte.toUInt64.toInt64
  else if firstByte = 253 then
    let b2 ← getInt8
    let b1 ← getInt8
    return ((b2.toUInt64 <<< 8) + b1.toUInt64).toInt64
  else if firstByte = 254 then
    let b4 ← getInt8
    let b3 ← getInt8
    let b2 ← getInt8
    let b1 ← getInt8
    return ((b4.toUInt32 <<< 24) + (b3.toUInt32 <<< 16) + (b2.toUInt32 <<< 8)
      + b1.toUInt32).toUInt64.toInt64
  else
    getInt64

/-- The loops stop at nothing but their counter; an overrun returns 0. -/
def varIntSource {W : Type} [OfNat W 0] : VarInt.Source W where
  getInt8 := getInt8
  more _ := return true
  moreSkipped _ := return true
  overrun := return 0

def getVarInt32 : FileReader Int32 := VarInt.get32 varIntSource

def getVarInt64 : FileReader Int64 := VarInt.get64 varIntSource

/-- `new unsigned char[len]`, then `fread` of all of it. -/
def getUstring (len : Int) : FileReader UString := fun file i =>
  if len < 0 then
    .error .badArrayNewLength
  else if i + len.toNat ≤ file.length then
    .ok ((file.drop i).take len.toNat, i + len.toNat)
  else
    .error (.code 1)

def getVarUstringB : FileReader UString := do
  let len ← getVarIntB
  getUstring len.toInt32.toInt

/-- `getVarUstring` and `getVarString`. -/
def getVarUstring : FileReader UString := do
  let len ← getVarInt32
  getUstring len.toInt

/-- A length is an `int`. -/
theorem getVarUstringB_length {file str : UString} {position next : Nat}
    (read : getVarUstringB file position = .ok (str, next)) : str.length < intLimit := by
  obtain ⟨len, _, _, read⟩ := Cursor.bind_eq_ok.mp read
  unfold getUstring at read
  split at read
  next => cases read
  split at read
  next =>
    cases read
    have bound := Int32.toInt_lt len.toInt32
    rw [List.length_take]
    simp only [intLimit]
    omega
  next => cases read

/-! ## The writers append the encodings of `ustring` -/

theorem writeInt64_eq (file : UString) (i : Int64) :
    writeInt64 file i = file ++ UString.appendInt64 [] i :=
  UString.appendInt64_eq file i

theorem writeVarIntB_eq (file : UString) (i : UInt64) :
    writeVarIntB file i = file ++ UString.appendVarIntB [] i :=
  UString.appendVarIntB_eq file i

theorem writeVarInt32_eq (file : UString) (i : UInt32) :
    writeVarInt32 file i = file ++ VarInt.groupBytes i.toNat :=
  VarInt.put32_eq (fun _ _ => rfl) file i

theorem writeVarUstringB_eq (file str : UString) :
    writeVarUstringB file str = file ++ UString.appendVarUstringB [] str :=
  UString.appendVarUstringB_eq file str

/-! ## The readers return what was written -/

/-- Complete values are returned, torn ones throw the code 1. -/
abbrev Reads {α : Type} (reader : FileReader α) (encoding : UString) (value : α) : Prop :=
  Cursor.Reads (.code 1) reader encoding value

theorem getInt8_reads (byte : UInt8) : Reads getInt8 [byte] byte := by
  constructor
  · intro before after
    simp [getInt8]
  · intro before n inside
    have none : n = 0 := by simpa using inside
    simp [getInt8, none]

theorem getInt8_ends (file : UString) : getInt8 file file.length = .error (.code 1) := by
  simp [getInt8]

/-- A reader that starts with one byte. -/
theorem reads_cons {α : Type} {next : UInt8 → FileReader α} {byte : UInt8} {rest : UString}
    {value : α} (tail : Reads (next byte) rest value) :
    Reads (getInt8 >>= next) (byte :: rest) value :=
  (getInt8_reads byte).bind tail

theorem reads_return {α : Type} {packed value : α} (equal : packed = value) :
    Reads (pure packed : FileReader α) [] value :=
  equal ▸ Cursor.Reads.pure _ packed

theorem getInt16_reads (i : Int16) : Reads getInt16 (UString.appendInt16 [] i) i :=
  reads_cons (reads_cons (reads_return (congrArg UInt16.toInt16 (UString.word16_eq _))))

theorem getInt32_reads (i : Int32) : Reads getInt32 (UString.appendInt32 [] i) i :=
  reads_cons (reads_cons (reads_cons (reads_cons
    (reads_return (congrArg UInt32.toInt32 (UString.word32_eq _))))))

theorem getInt64_reads (i : Int64) : Reads getInt64 (UString.appendInt64 [] i) i :=
  reads_cons (reads_cons (reads_cons (reads_cons (reads_cons (reads_cons (reads_cons (reads_cons
    (reads_return (congrArg UInt64.toInt64 (UString.word64_eq _))))))))))

theorem getVarIntB_reads (v : UInt64) :
    Reads getVarIntB (UString.appendVarIntB [] v) v.toInt64 := by
  rcases UString.appendVarIntB_cases v with ⟨small, bytes⟩ | ⟨low, high, bytes⟩ |
    ⟨low, high, bytes⟩ | ⟨low, bytes⟩ <;> rw [bytes] <;> apply reads_cons
  · rw [if_pos (UString.toUInt8_lt small)]
    exact reads_return (congrArg UInt64.toInt64 (UString.word8_toUInt64 small))
  · exact reads_cons (reads_cons (reads_return
      (congrArg UInt64.toInt64 (UString.word16_toUInt64 high))))
  · exact reads_cons (reads_cons (reads_cons (reads_cons (reads_return
      (congrArg UInt64.toInt64 (UString.word32_toUInt64 high))))))
  · exact getInt64_reads v.toInt64

theorem varIntSource_serves {W : Type} [OfNat W 0] (limit : Nat) :
    (varIntSource : VarInt.Source W).Serves limit where
  getInt8 byte before after _ := (getInt8_reads byte).whole before after
  more _ _ _ _ _ := rfl
  moreSkipped _ _ _ _ _ := rfl

theorem getUstring_reads {len : Int} {bytes : UString} (equal : len = bytes.length) :
    Reads (getUstring len) bytes bytes := by
  subst equal
  constructor
  · intro before after
    have positive : ¬((bytes.length : Int) < 0) := by omega
    simp [getUstring, positive]
  · intro before n inside
    have outside : ¬(before.length + bytes.length ≤ (before ++ bytes.take n).length) := by
      simp only [List.length_append, List.length_take]
      omega
    have positive : ¬((bytes.length : Int) < 0) := by omega
    simp only [getUstring, if_neg positive, Int.toNat_natCast, if_neg outside]

theorem getVarUstringB_reads {str : UString} (short : str.length < intLimit) :
    Reads getVarUstringB (UString.appendVarUstringB [] str) str :=
  (getVarIntB_reads _).bind (getUstring_reads (UString.length_toInt32 short))

end FileUString

end BitMRC

import BitMRC.Utils.VarIntRoundTrip

/-!
# One format for three classes

What a string, a socket and a file are given to write, and what is read from them.
The three classes agree on everything but the numbers in groups of seven bits and the
strings whose lengths are such numbers.
-/

namespace BitMRC

open Foundation

/-- A string that is not longer than an `int` can say. -/
abbrev Text := { str : UString // str.length < intLimit }

/-- A value with the operation that writes it. -/
inductive Item where
  | int8 (i : UInt8)
  | int16 (i : Int16)
  | int32 (i : Int32)
  | int64 (i : Int64)
  | varIntB (i : UInt64)
  | varInt32 (i : UInt32)
  | varInt64 (i : UInt64)
  | varString (str : Text)
  | varUstring (str : Text)
  | varStringB (str : Text)
  | varUstringB (str : Text)

/-- The operations, without what they write. -/
inductive Operation where
  | int8
  | int16
  | int32
  | int64
  | varIntB
  | varInt32
  | varInt64
  | varString
  | varUstring
  | varStringB
  | varUstringB

def Item.operation : Item → Operation
  | .int8 _ => .int8
  | .int16 _ => .int16
  | .int32 _ => .int32
  | .int64 _ => .int64
  | .varIntB _ => .varIntB
  | .varInt32 _ => .varInt32
  | .varInt64 _ => .varInt64
  | .varString _ => .varString
  | .varUstring _ => .varUstring
  | .varStringB _ => .varStringB
  | .varUstringB _ => .varUstringB

/-- What the readers return. -/
inductive Value where
  | int8 (i : UInt8)
  | int16 (i : Int16)
  | int32 (i : Int32)
  | int64 (i : Int64)
  | text (str : UString)

namespace UString

/-- `append*`. -/
def appendItem (s : UString) : Item → Except Exn UString
  | .int8 i => .ok (appendInt8 s i)
  | .int16 i => .ok (appendInt16 s i)
  | .int32 i => .ok (appendInt32 s i)
  | .int64 i => .ok (appendInt64 s i)
  | .varIntB i => .ok (appendVarIntB s i)
  | .varInt32 i => .ok (appendVarInt32 s i)
  | .varInt64 i => appendVarInt64 s i
  | .varString str => .ok (appendVarUstring s str)
  | .varUstring str => .ok (appendVarUstring s str)
  | .varStringB str => .ok (appendVarUstringB s str)
  | .varUstringB str => .ok (appendVarUstringB s str)

/-- `get*`. -/
def getItem : Operation → Reader Value
  | .int8 => return .int8 (← getInt8)
  | .int16 => return .int16 (← getInt16)
  | .int32 => return .int32 (← getInt32)
  | .int64 => return .int64 (← getInt64)
  | .varIntB => return .int64 (← getVarIntB)
  | .varInt32 => return .int32 (← getVarInt32)
  | .varInt64 => return .int64 (← getVarInt64)
  | .varString => return .text (← getVarUstring)
  | .varUstring => return .text (← getVarUstring)
  | .varStringB => return .text (← getVarUstringB)
  | .varUstringB => return .text (← getVarUstringB)

end UString

namespace SocketUString

/-- `send*`. -/
def sendItem (out : UString) : Item → Except Exn UString
  | .int8 i => .ok (sendByte out i)
  | .int16 i => .ok (sendInt16 out i)
  | .int32 i => .ok (sendInt32 out i)
  | .int64 i => .ok (sendInt64 out i)
  | .varIntB i => .ok (sendVarIntB out i)
  | .varInt32 i => .ok (sendVarInt32 out i)
  | .varInt64 i => sendVarInt64 out i
  | .varString str => .ok (sendVarString out str)
  | .varUstring str => sendVarUstring out str
  | .varStringB str => .ok (sendVarUstringB out str)
  | .varUstringB str => .ok (sendVarUstringB out str)

/-- `get*`. -/
def getItem (ending : Ending) : Operation → SocketReader Value
  | .int8 => return .int8 (← getInt8 ending)
  | .int16 => return .int16 (← getInt16 ending)
  | .int32 => return .int32 (← getInt32 ending)
  | .int64 => return .int64 (← getInt64 ending)
  | .varIntB => return .int64 (← getVarIntB ending)
  | .varInt32 => return .int32 (← getVarInt32 ending)
  | .varInt64 => return .int64 (← getVarInt64 ending)
  | .varString => return .text (← getVarUstring ending)
  | .varUstring => return .text (← getVarUstring ending)
  | .varStringB => return .text (← getVarUstringB ending)
  | .varUstringB => return .text (← getVarUstringB ending)

end SocketUString

namespace FileUString

/-- `write*`. -/
def writeItem (file : UString) : Item → Except Exn UString
  | .int8 i => .ok (writeByte file i)
  | .int16 i => .ok (writeInt16 file i)
  | .int32 i => .ok (writeInt32 file i)
  | .int64 i => .ok (writeInt64 file i)
  | .varIntB i => .ok (writeVarIntB file i)
  | .varInt32 i => .ok (writeVarInt32 file i)
  | .varInt64 i => writeVarInt64 file i
  | .varString str => .ok (writeVarUstring file str)
  | .varUstring str => .ok (writeVarUstring file str)
  | .varStringB str => .ok (writeVarUstringB file str)
  | .varUstringB str => .ok (writeVarUstringB file str)

/-- `get*`. -/
def getItem : Operation → FileReader Value
  | .int8 => return .int8 (← getInt8)
  | .int16 => return .int16 (← getInt16)
  | .int32 => return .int32 (← getInt32)
  | .int64 => return .int64 (← getInt64)
  | .varIntB => return .int64 (← getVarIntB)
  | .varInt32 => return .int32 (← getVarInt32)
  | .varInt64 => return .int64 (← getVarInt64)
  | .varString => return .text (← getVarUstring)
  | .varUstring => return .text (← getVarUstring)
  | .varStringB => return .text (← getVarUstringB)
  | .varUstringB => return .text (← getVarUstringB)

end FileUString

/-- The three classes write the same bytes, and read the same from whatever begins
with them. -/
def SameFormat (item : Item) : Prop :=
  ∃ bytes, (∀ s, UString.appendItem s item = .ok (s ++ bytes)) ∧
    (∀ out, SocketUString.sendItem out item = .ok (out ++ bytes)) ∧
    (∀ file, FileUString.writeItem file item = .ok (file ++ bytes)) ∧
    ∀ (ending : Ending) (after : UString), ∃ value count,
      UString.getItem item.operation (bytes ++ after) 0 = .ok (value, count) ∧
      SocketUString.getItem ending item.operation (bytes ++ after) 0 = .ok (value, count) ∧
      FileUString.getItem item.operation (bytes ++ after) 0 = .ok (value, count)

/-- What the numbers in groups of seven bits leave of it. -/
def Item.Agreed : Item → Prop
  | .varInt64 i => i.toNat < 2 ^ 35
  | .varString str => str.val.length < 2 ^ 14
  | .varUstring str => str.val.length < 2 ^ 14
  | _ => True

/-- A reader of each class that passes over the bytes makes one format. -/
structure ReadAlike (operation : Operation) (bytes : UString) (value : Value) : Prop where
  short : bytes.length < 2 ^ 32
  ustring : Cursor.Passes (2 ^ 32) (UString.getItem operation) bytes value
  socket : ∀ ending limit, Cursor.Passes limit (SocketUString.getItem ending operation) bytes value
  file : ∀ limit, Cursor.Passes limit (FileUString.getItem operation) bytes value

theorem ReadAlike.same {operation : Operation} {bytes : UString} {value : Value}
    (alike : ReadAlike operation bytes value) (ending : Ending) (after : UString) :
    ∃ value count, UString.getItem operation (bytes ++ after) 0 = .ok (value, count) ∧
      SocketUString.getItem ending operation (bytes ++ after) 0 = .ok (value, count) ∧
      FileUString.getItem operation (bytes ++ after) 0 = .ok (value, count) :=
  ⟨value, bytes.length, alike.ustring.from_start alike.short after,
    (alike.socket ending _).from_start (Nat.lt_succ_self _) after,
    (alike.file _).from_start (Nat.lt_succ_self _) after⟩

/-! ## Integers of a fixed width and `VarInt_B` -/

namespace ReadAlike

open UString (appendInt8 appendInt16 appendInt32 appendInt64 appendVarIntB appendVarUstringB)

theorem int8 (i : UInt8) : ReadAlike .int8 [i] (.int8 i) where
  short := by simp
  ustring := (UString.getInt8_passes i).map Value.int8
  socket _ limit := ((SocketUString.getInt8_receives i).passes limit).map Value.int8
  file limit := ((FileUString.getInt8_reads i).passes limit).map Value.int8

theorem int16 (i : Int16) : ReadAlike .int16 (appendInt16 [] i) (.int16 i) where
  short := by simp
  ustring := (UString.getInt16_passes i).map Value.int16
  socket _ limit := ((SocketUString.getInt16_receives i).passes limit).map Value.int16
  file limit := ((FileUString.getInt16_reads i).passes limit).map Value.int16

theorem int32 (i : Int32) : ReadAlike .int32 (appendInt32 [] i) (.int32 i) where
  short := by simp
  ustring := (UString.getInt32_passes i).map Value.int32
  socket _ limit := ((SocketUString.getInt32_receives i).passes limit).map Value.int32
  file limit := ((FileUString.getInt32_reads i).passes limit).map Value.int32

theorem int64 (i : Int64) : ReadAlike .int64 (appendInt64 [] i) (.int64 i) where
  short := by simp
  ustring := (UString.getInt64_passes i).map Value.int64
  socket _ limit := ((SocketUString.getInt64_receives i).passes limit).map Value.int64
  file limit := ((FileUString.getInt64_reads i).passes limit).map Value.int64

theorem varIntB (i : UInt64) :
    ReadAlike .varIntB (appendVarIntB [] i) (.int64 i.toInt64) where
  short := Nat.lt_of_le_of_lt (UString.appendVarIntB_length_le i) (by decide)
  ustring := (UString.getVarIntB_passes i).map Value.int64
  socket _ limit := ((SocketUString.getVarIntB_receives i).passes limit).map Value.int64
  file limit := ((FileUString.getVarIntB_reads i).passes limit).map Value.int64

theorem varUstringB (str : Text) :
    ReadAlike .varUstringB (appendVarUstringB [] str) (.text str) where
  short := by
    have length := UString.appendVarIntB_length_le (UInt64.ofNat str.val.length)
    have text := str.property
    simp only [intLimit] at text
    rw [appendVarUstringB, List.length_append]
    omega
  ustring := (UString.getVarUstringB_passes str.property).map Value.text
  socket _ limit := ((SocketUString.getVarUstringB_receives str.property).passes limit).map _
  file limit := ((FileUString.getVarUstringB_reads str.property).passes limit).map _

/-! ## Groups of seven bits -/

theorem varInt32 (i : UInt32) : ReadAlike .varInt32 (VarInt.groupBytes i.toNat)
    (.int32 (Int32.ofInt (VarInt.total 5 0 (VarInt.groupBytes i.toNat)))) := by
  have few := VarInt.groups_few i
  rw [← VarInt.groupBytes_length] at few
  have marks := VarInt.groupBytes_marksAll i.toNat
  have read {source : VarInt.Source Int32} {limit : Nat} (serves : source.Serves limit) :=
    VarInt.get32_passes serves marks (by omega)
  exact ⟨by omega, (read (UString.varIntSource_serves _)).map Value.int32,
    fun _ limit => (read (SocketUString.varIntSource_serves limit)).map Value.int32,
    fun limit => (read (FileUString.varIntSource_serves limit)).map Value.int32⟩

theorem varInt64 {bytes : UString} (marks : VarInt.MarksAll bytes) (few : bytes.length ≤ 10) :
    ReadAlike .varInt64 bytes (.int64 (Int64.ofInt (VarInt.total 5 0 bytes))) := by
  have read {source : VarInt.Source Int64} {limit : Nat} (serves : source.Serves limit) :=
    VarInt.get64_passes serves marks few
  exact ⟨by omega, (read (UString.varIntSource_serves _)).map Value.int64,
    fun _ limit => (read (SocketUString.varIntSource_serves limit)).map Value.int64,
    fun limit => (read (FileUString.varIntSource_serves limit)).map Value.int64⟩

end ReadAlike

/-! ## Strings behind a number in groups -/

section Texts

variable {n : Nat}

/-- The length that the readers see in front of a string of length `n`. -/
def seenLength (n : Nat) : Int := (Int32.ofInt (VarInt.total 5 0 (VarInt.groupBytes n))).toInt

theorem groups_few_of_lt (short : n < intLimit) : (groups 128 n).length ≤ 5 := by
  simp only [intLimit] at short
  exact (length_groups_le_iff (by decide) n 4).mpr (by omega)

/-- It is the length, or no length that such a string can have. -/
theorem seenLength_cases (short : n < intLimit) :
    (n < 2 ^ 14 ∧ seenLength n = n) ∨ (2 ^ 14 ≤ n ∧ (seenLength n < 0 ∨ n < seenLength n)) := by
  have few := groups_few_of_lt short
  simp only [intLimit] at short
  rw [seenLength, VarInt.total_eq few, Int32.toInt_ofInt]
  simp only [Int.bmod_def, Int32.size]
  rcases VarInt.excess_cases (n := n) (by omega) with ⟨small, none⟩ | ⟨large, positive, bounded⟩
  · rw [none]
    omega
  · omega

/-- A string behind the groups of its length. -/
def lengthGroups (str : UString) : UString := VarInt.groupBytes str.length ++ str

theorem length_toUInt32 {str : UString} (short : str.length < intLimit) :
    (UInt32.ofNat str.length).toNat = str.length := by
  simp only [intLimit] at short
  simp
  omega

theorem getLength_passes {source : VarInt.Source Int32} {limit : Nat}
    (serves : source.Serves limit) (short : n < intLimit) :
    Cursor.Passes limit (VarInt.get32 source) (VarInt.groupBytes n)
      (Int32.ofInt (VarInt.total 5 0 (VarInt.groupBytes n))) := by
  have few := groups_few_of_lt short
  rw [← VarInt.groupBytes_length] at few
  exact VarInt.get32_passes serves (VarInt.groupBytes_marksAll n) (by omega)

theorem ReadAlike.varUstring {str : UString} (short : str.length < 2 ^ 14) :
    ReadAlike .varUstring (lengthGroups str) (.text str) := by
  have fits : str.length < intLimit := Nat.lt_trans short (by decide)
  have few := groups_few_of_lt fits
  rw [← VarInt.groupBytes_length] at few
  have seen : seenLength str.length = str.length := by
    rcases seenLength_cases fits with ⟨_, seen⟩ | ⟨large, _⟩
    · exact seen
    · omega
  refine ⟨?_, ?_, ?_, ?_⟩
  · rw [lengthGroups, List.length_append]
    omega
  · exact ((getLength_passes (UString.varIntSource_serves _) fits).bind
      (UString.getUstring_passes seen)).map Value.text
  · intro ending limit
    exact ((getLength_passes (SocketUString.varIntSource_serves limit) fits).bind
      ((SocketUString.getUstring_receives seen).passes limit)).map Value.text
  · intro limit
    exact ((getLength_passes (FileUString.varIntSource_serves limit) fits).bind
      ((FileUString.getUstring_reads seen).passes limit)).map Value.text

/-- From 2^14 on a file ends inside the string that its reader looks for. -/
theorem getVarUstring_error {str : UString} (short : str.length < intLimit)
    (large : 2 ^ 14 ≤ str.length) (value : UString) (count : Nat) :
    FileUString.getVarUstring (lengthGroups str) 0 ≠ .ok (value, count) := by
  intro read
  obtain ⟨len, position, length, text⟩ := Cursor.bind_eq_ok.mp read
  have found := (getLength_passes (FileUString.varIntSource_serves _) short).from_start
    (Nat.lt_succ_self _) str
  cases found.symm.trans length
  rcases seenLength_cases short with ⟨small, _⟩ | ⟨_, outside⟩
  · omega
  · rw [seenLength] at outside
    unfold FileUString.getUstring at text
    split at text
    next => cases text
    split at text
    next positive inside =>
      rw [lengthGroups, List.length_append] at inside
      omega
    next => cases text

end Texts

/-! ## The writers -/

theorem UString.appendVarUstring_eq {str : UString} (short : str.length < intLimit)
    (s : UString) : UString.appendVarUstring s str = s ++ lengthGroups str := by
  rw [UString.appendVarUstring, UString.appendVarInt32_eq, length_toUInt32 short, lengthGroups,
    List.append_assoc]

theorem SocketUString.sendVarString_eq {str : UString} (short : str.length < intLimit)
    (out : UString) : SocketUString.sendVarString out str = out ++ lengthGroups str := by
  rw [SocketUString.sendVarString, SocketUString.sendWhole_eq, SocketUString.sendVarInt32_eq,
    length_toUInt32 short, lengthGroups, List.append_assoc]

/-- The number of 64 bits has the bytes of that of 32 bits up to 28 bits. -/
theorem SocketUString.sendVarUstring_eq {str : UString} (short : str.length < 2 ^ 28)
    (out : UString) : SocketUString.sendVarUstring out str = .ok (out ++ lengthGroups str) := by
  have length : (UInt64.ofNat str.length).toNat = str.length := by
    simp
    omega
  rw [SocketUString.sendVarUstring, SocketUString.sendVarInt64_eq,
    VarInt.append64_small [] (by rwa [length]), length]
  simp [bind, Except.bind, pure, Except.pure, Except.map, SocketUString.sendWhole_eq, lengthGroups]

theorem FileUString.writeVarUstring_eq {str : UString} (short : str.length < intLimit)
    (file : UString) : FileUString.writeVarUstring file str = file ++ lengthGroups str := by
  rw [FileUString.writeVarUstring, FileUString.writeVarInt32_eq, length_toUInt32 short,
    lengthGroups, List.append_assoc]

/-- Numbers of 64 bits that are written at all take six bytes at most. -/
theorem VarInt.append64_bytes {i : UInt64} (few : i.toNat < 2 ^ 35) :
    ∃ bytes, VarInt.append64 [] i = .ok bytes ∧ VarInt.MarksAll bytes ∧ bytes.length ≤ 10 := by
  by_cases small : i.toNat < 2 ^ 28
  · refine ⟨_, VarInt.append64_small [] small, VarInt.groupBytes_marksAll _, ?_⟩
    have atMost := (length_groups_le_iff (show 1 < 128 by decide) i.toNat 9).mpr (by omega)
    rwa [List.nil_append, VarInt.groupBytes_length]
  · refine ⟨_, VarInt.append64_medium [] (by omega) few, ⟨_, _, rfl, ?_, ?_⟩, ?_⟩
    · intro b member
      obtain ⟨j, _, rfl⟩ := List.mem_map.mp member
      simp [VarInt.markedGroup]
      omega
    · simp
      omega
    · simp

/-! ## Which items have one format -/

theorem sameFormat_varInt64 (i : UInt64) : SameFormat (.varInt64 i) ↔ i.toNat < 2 ^ 35 := by
  constructor
  · rintro ⟨bytes, append, _, _, _⟩
    by_contra large
    have written := append []
    rw [UString.appendItem, UString.appendVarInt64, VarInt.append64_undefined [] (by omega)]
      at written
    cases written
  · intro few
    obtain ⟨bytes, written, marks, short⟩ := VarInt.append64_bytes few
    refine ⟨bytes, ?_, ?_, ?_, (ReadAlike.varInt64 marks short).same⟩
    · intro s
      rw [UString.appendItem, UString.appendVarInt64, VarInt.append64_eq, written]
      rfl
    · intro out
      rw [SocketUString.sendItem, SocketUString.sendVarInt64_eq, written]
      rfl
    · intro file
      rw [FileUString.writeItem, FileUString.writeVarInt64_eq, written]
      rfl

/-- A string that all classes would read back is short. -/
theorem short_of_sameFormat {item : Item} {str : Text}
    (appends : ∀ s, UString.appendItem s item = .ok (UString.appendVarUstring s str))
    (reads : FileUString.getItem item.operation =
      FileUString.getVarUstring >>= fun found => pure (.text found))
    (same : SameFormat item) : str.val.length < 2 ^ 14 := by
  obtain ⟨bytes, append, _, _, back⟩ := same
  by_contra large
  have written := append []
  rw [appends, UString.appendVarUstring_eq str.property] at written
  cases written
  obtain ⟨value, count, _, _, file⟩ := back .closed []
  rw [reads, List.append_nil] at file
  obtain ⟨found, _, read, _⟩ := Cursor.bind_eq_ok.mp file
  exact getVarUstring_error str.property (by omega) found _ read

theorem sameFormat_varString (str : Text) :
    SameFormat (.varString str) ↔ str.val.length < 2 ^ 14 := by
  constructor
  · exact short_of_sameFormat (fun _ => rfl) rfl
  · intro short
    refine ⟨lengthGroups str, ?_, ?_, ?_, (ReadAlike.varUstring short).same⟩
    · exact fun s => congrArg Except.ok (UString.appendVarUstring_eq str.property s)
    · exact fun out => congrArg Except.ok (SocketUString.sendVarString_eq str.property out)
    · exact fun file => congrArg Except.ok (FileUString.writeVarUstring_eq str.property file)

theorem sameFormat_varUstring (str : Text) :
    SameFormat (.varUstring str) ↔ str.val.length < 2 ^ 14 := by
  constructor
  · exact short_of_sameFormat (fun _ => rfl) rfl
  · intro short
    refine ⟨lengthGroups str, ?_, ?_, ?_, (ReadAlike.varUstring short).same⟩
    · exact fun s => congrArg Except.ok (UString.appendVarUstring_eq str.property s)
    · exact fun out => SocketUString.sendVarUstring_eq (Nat.lt_trans short (by decide)) out
    · exact fun file => congrArg Except.ok (FileUString.writeVarUstring_eq str.property file)

/-- Which items have one format in the three classes. -/
theorem sameFormat_iff (item : Item) : SameFormat item ↔ item.Agreed := by
  cases item with
  | int8 i =>
      exact iff_of_true
        ⟨[i], fun _ => rfl, fun _ => rfl, fun _ => rfl, (ReadAlike.int8 i).same⟩ trivial
  | int16 i =>
      have append := fun s => congrArg (Except.ok (ε := Exn)) (UString.appendInt16_eq s i)
      exact iff_of_true ⟨_, append, append, append, (ReadAlike.int16 i).same⟩ trivial
  | int32 i =>
      have append := fun s => congrArg (Except.ok (ε := Exn)) (UString.appendInt32_eq s i)
      exact iff_of_true ⟨_, append, append, append, (ReadAlike.int32 i).same⟩ trivial
  | int64 i =>
      have append := fun s => congrArg (Except.ok (ε := Exn)) (UString.appendInt64_eq s i)
      exact iff_of_true ⟨_, append, append, append, (ReadAlike.int64 i).same⟩ trivial
  | varIntB i =>
      have append := fun s => congrArg (Except.ok (ε := Exn)) (UString.appendVarIntB_eq s i)
      exact iff_of_true ⟨_, append, append, append, (ReadAlike.varIntB i).same⟩ trivial
  | varInt32 i =>
      exact iff_of_true ⟨_, fun s => congrArg Except.ok (UString.appendVarInt32_eq s i),
        fun out => congrArg Except.ok (SocketUString.sendVarInt32_eq out i),
        fun file => congrArg Except.ok (FileUString.writeVarInt32_eq file i),
        (ReadAlike.varInt32 i).same⟩ trivial
  | varInt64 i => exact sameFormat_varInt64 i
  | varString str => exact sameFormat_varString str
  | varUstring str => exact sameFormat_varUstring str
  | varStringB str =>
      exact iff_of_true ⟨_, fun s => congrArg Except.ok (UString.appendVarUstringB_eq s str),
        fun out => congrArg Except.ok (SocketUString.sendVarUstringB_eq out str),
        fun file => congrArg Except.ok (FileUString.writeVarUstringB_eq file str),
        (ReadAlike.varUstringB str).same⟩ trivial
  | varUstringB str =>
      exact iff_of_true ⟨_, fun s => congrArg Except.ok (UString.appendVarUstringB_eq s str),
        fun out => congrArg Except.ok (SocketUString.sendVarUstringB_eq out str),
        fun file => congrArg Except.ok (FileUString.writeVarUstringB_eq file str),
        (ReadAlike.varUstringB str).same⟩ trivial

/-- A string of 2^14 bytes that a file does not give back, and a number that is not
written at all. -/
theorem not_sameFormat :
    ¬ SameFormat (.varString ⟨List.replicate 16384 0, by rw [List.length_replicate]; decide⟩) ∧
      ¬ SameFormat (.varInt64 34359738368) := by
  constructor
  · intro same
    have short := (sameFormat_varString _).mp same
    rw [List.length_replicate] at short
    omega
  · intro same
    exact absurd ((sameFormat_varInt64 _).mp same) (by decide)

end BitMRC

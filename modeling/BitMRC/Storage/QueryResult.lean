import BitMRC.Foundation.CheckedArray
import BitMRC.Utils.UStringCodec

/-!
# `QueryResult` and `QueryResultElement`

A row of a result is a list of elements, each with a name and a value.  Both the name and a
string value are kept in `data`: `setName`, which comes last, replaces the value by the name.
-/

namespace BitMRC.Storage

open Foundation CheckedArray UString

/-- A C string without the zero behind it. -/
structure CString where
  bytes : UString
  noZero : (0 : UInt8) ∉ bytes
  deriving DecidableEq

/-- The comparison of `strncmp`, which must not reach the end of either array first. -/
def strncmp : (left right : UString) → (n : Nat) → Except Exn Int
  | _, _, 0 => .ok 0
  | a :: left, b :: right, n + 1 =>
      if a ≠ b ∨ a = 0 then .ok (a.toNat - b.toNat) else strncmp left right n
  | _, _, _ + 1 => .error .undefined

/-! ## Elements -/

/-- `enQueryResultType`. -/
inductive ElementType where
  | none | null | int32 | int64 | uint32 | uint64 | string | blob | double
  deriving DecidableEq

/-- `QueryResultElement`; the unions are kept as the bits of their unsigned member. -/
structure QueryResultElement where
  queryResultElementType : ElementType
  i32 : UInt32
  i64 : UInt64
  data : Option CString
  stringLen : UInt32

namespace QueryResultElement

/-- `QueryResultElement()`. -/
def null : QueryResultElement where
  queryResultElementType := .null
  i32 := 0
  i64 := 0
  data := none
  stringLen := 0

def ofUint32 (value : UInt32) : QueryResultElement :=
  { null with queryResultElementType := .uint32, i32 := value }

def ofInt32 (value : Int32) : QueryResultElement :=
  { null with queryResultElementType := .int32, i32 := value.toUInt32 }

def ofUint64 (value : UInt64) : QueryResultElement :=
  { null with queryResultElementType := .uint64, i64 := value }

def ofInt64 (value : Int64) : QueryResultElement :=
  { null with queryResultElementType := .int64, i64 := value.toUInt64 }

/-- `QueryResultElement(nm, len)`: `strcpy` into `new char[len + 1]`. -/
def ofString (nm : CString) (len : UInt32) : Except Exn QueryResultElement :=
  if nm.bytes.length + 1 ≤ (len + 1).toNat then
    .ok { null with queryResultElementType := .string, data := some nm, stringLen := len }
  else
    .error .undefined

def getUint32Value (self : QueryResultElement) : UInt32 := self.i32

def getInt32Value (self : QueryResultElement) : Int32 := self.i32.toInt32

def getUint64Value (self : QueryResultElement) : UInt64 := self.i64

def getInt64Value (self : QueryResultElement) : Int64 := self.i64.toInt64

def getStringValue (self : QueryResultElement) : Option CString := self.data

def getName (self : QueryResultElement) : Option CString := self.data

/-- `setName`; an array that `data` pointed to is deleted. -/
def setName (self : QueryResultElement) (nameIn : CString) : QueryResultElement :=
  { self with data := some nameIn, stringLen := UInt32.ofNat nameIn.bytes.length }

end QueryResultElement

/-! ## Results -/

/-- The columns of a `QueryResult`. -/
structure QueryResult where
  qrtv : List QueryResultElement

namespace QueryResult

def addElement (self : QueryResult) (qre : QueryResultElement) : QueryResult :=
  ⟨self.qrtv ++ [qre]⟩

/-- The loop of `findField` from the column with number `cidx` on. -/
def findFieldFrom (name : CString) : (cidx : UInt32) → List QueryResultElement → Int32
  | _, [] => -1
  | cidx, it :: rest =>
      if it.getName = some name then cidx.toInt32 else findFieldFrom name (cidx + 1) rest

def findField (self : QueryResult) (name : CString) : Int32 := findFieldFrom name 0 self.qrtv

/-- `getFieldUint32` and its likes, with what they read in an element.  Without an `out`
pointer nothing can be written. -/
def getField {α : Type} (value : QueryResultElement → α) (self : QueryResult)
    (name : Option CString) (out : Option α) : Except Exn (Bool × Option α) :=
  match name, out with
  | some name, some _ =>
      let index := self.findField name
      if index ≠ -1 then do
        let qre ← fetch Exn.undefined self.qrtv (sizeT index.toInt)
        return (true, some (value qre))
      else
        return (false, out)
  | _, _ => return (false, out)

def getFieldUint32 := getField QueryResultElement.getUint32Value

def getFieldInt32 := getField QueryResultElement.getInt32Value

def getFieldInt64 := getField QueryResultElement.getInt64Value

def getFieldUint64 := getField QueryResultElement.getUint64Value

/-- `getFieldString`; the array `out` is compared with the value. -/
def getFieldString (self : QueryResult) (name : Option CString) (out : Option UString)
    (len : UInt32) : Except Exn (Bool × Option UString) :=
  match name, out with
  | some name, some array =>
      let index := self.findField name
      if index ≠ -1 then do
        let qre ← fetch Exn.undefined self.qrtv (sizeT index.toInt)
        match qre.getStringValue with
        | none => throw .undefined
        | some value => do
            let _ ← strncmp array (value.bytes ++ [0]) (len - 1).toNat
            return (true, some array)
      else
        return (false, out)
  | _, _ => return (false, out)

end QueryResult

/-! ## Rows -/

/-- The typed value of a column. -/
inductive Value where
  | int32 (value : Int32)
  | uint32 (value : UInt32)
  | int64 (value : Int64)
  | uint64 (value : UInt64)
  | string (value : CString)

/-- The element that is made for a value; the length of a string is converted to `uint32_t`. -/
def Value.element : Value → Except Exn QueryResultElement
  | .int32 value => .ok (.ofInt32 value)
  | .uint32 value => .ok (.ofUint32 value)
  | .int64 value => .ok (.ofInt64 value)
  | .uint64 value => .ok (.ofUint64 value)
  | .string value => QueryResultElement.ofString value (UInt32.ofNat value.bytes.length)

structure Column where
  name : CString
  value : Value

/-- A row; the number of its columns is a `uint32_t`. -/
structure Row where
  columns : List Column
  numfields : columns.length < 2 ^ 32

/-- The loop of `prepareResultRow`: an element is made for every column, named and added. -/
def addColumns {α : Type} (name : α → CString) (element : α → Except Exn QueryResultElement)
    (qr : QueryResult) : List α → Except Exn QueryResult
  | [] => .ok qr
  | column :: rest => do
      let el ← element column
      addColumns name element (qr.addElement (el.setName (name column))) rest

/-- A new result with the columns of a row. -/
def Row.prepare (row : Row) : Except Exn QueryResult :=
  addColumns Column.name (fun column => column.value.element) ⟨[]⟩ row.columns

/-- The field types that `prepareResultRow` tells apart. -/
inductive FieldType where
  | long | string | varString | other
  deriving DecidableEq

/-- `MYSQL_FIELD` with the text that the row has for it. -/
structure Field where
  name : CString
  type : FieldType
  text : Option CString

/-- The constructor that `prepareResultRow` calls for a field. -/
def Field.element (atoi : CString → Int32) (fld : Field) : Except Exn QueryResultElement :=
  match fld.text, fld.type with
  | none, _ => .ok .null
  | some text, .long => .ok (.ofInt32 (atoi text))
  | some text, .string => QueryResultElement.ofString text (UInt32.ofNat text.bytes.length)
  | some text, .varString => QueryResultElement.ofString text (UInt32.ofNat text.bytes.length)
  | some _, .other => .ok .null

/-- `prepareResultRow`. -/
def prepareResultRow (atoi : CString → Int32) (qr : QueryResult) (row : List Field) :
    Except Exn QueryResult :=
  addColumns Field.name (Field.element atoi) qr row

/-! ## What is put in -/

/-- A string whose length with the zero behind it is a `uint32_t`. -/
def Value.Fits : Value → Prop
  | .string value => value.bytes.length < 2 ^ 32 - 1
  | _ => True

def Value.IsInteger : Value → Prop
  | .string _ => False
  | _ => True

/-- The element of a column once it is named. -/
def Column.stored (column : Column) : QueryResultElement :=
  let el : QueryResultElement := match column.value with
    | .int32 value => .ofInt32 value
    | .uint32 value => .ofUint32 value
    | .int64 value => .ofInt64 value
    | .uint64 value => .ofUint64 value
    | .string _ => { QueryResultElement.null with queryResultElementType := .string }
  el.setName column.name

@[simp] theorem Column.getName_stored (column : Column) :
    column.stored.getName = some column.name := rfl

/-- The array of a string has room for the string if and only if the string fits. -/
theorem room_iff (value : CString) :
    value.bytes.length + 1 ≤ (UInt32.ofNat value.bytes.length + 1).toNat ↔
      value.bytes.length < 2 ^ 32 - 1 := by
  rw [UInt32.toNat_add, UInt32.toNat_ofNat']
  simp only [UInt32.reduceToNat]
  omega

theorem setName_element (column : Column) :
    (column.value.Fits → ∃ el, column.value.element = .ok el ∧
      el.setName column.name = column.stored) ∧
    (¬column.value.Fits → column.value.element = .error .undefined) := by
  obtain ⟨name, value⟩ := column
  cases value with
  | string value =>
      constructor
      · intro fits
        exact ⟨_, if_pos ((room_iff value).mpr fits), rfl⟩
      · intro large
        exact if_neg fun room => large ((room_iff value).mp room)
  | int32 _ | uint32 _ | int64 _ | uint64 _ =>
      exact ⟨fun _ => ⟨_, rfl, rfl⟩, fun large => absurd trivial large⟩

/-- A row is prepared if and only if every string in it fits. -/
theorem addColumns_eq_ok {qr result : QueryResult} {columns : List Column} :
    addColumns Column.name (fun column => column.value.element) qr columns = .ok result ↔
      (∀ column ∈ columns, column.value.Fits) ∧
        result = ⟨qr.qrtv ++ columns.map Column.stored⟩ := by
  induction columns generalizing qr with
  | nil =>
      rw [addColumns, List.map_nil, List.append_nil]
      constructor
      · rintro ⟨⟩
        exact ⟨fun _ member => absurd member List.not_mem_nil, rfl⟩
      · rintro ⟨_, rfl⟩
        rfl
  | cons column rest ih =>
      rw [addColumns, bind_eq_ok, List.forall_mem_cons]
      obtain ⟨fitting, large⟩ := setName_element column
      constructor
      · rintro ⟨el, made, prepared⟩
        have fits : column.value.Fits := by
          by_contra unfit
          cases (large unfit).symm.trans made
        obtain ⟨el', made', named⟩ := fitting fits
        cases made'.symm.trans made
        obtain ⟨others, rfl⟩ := ih.mp prepared
        refine ⟨⟨fits, others⟩, ?_⟩
        rw [named, QueryResult.addElement, List.append_assoc]
        rfl
      · rintro ⟨⟨fits, others⟩, rfl⟩
        obtain ⟨el, made, named⟩ := fitting fits
        refine ⟨el, made, ih.mpr ⟨others, ?_⟩⟩
        rw [named, QueryResult.addElement, List.append_assoc]
        rfl

/-- The first column of a name with its position. -/
def firstNamed (name : CString) (columns : List Column) : Option (Column × Nat) :=
  columns.zipIdx.find? fun found => found.1.name = name

theorem findFieldFrom_stored (name : CString) (columns : List Column) (n : Nat) :
    QueryResult.findFieldFrom name (UInt32.ofNat n) (columns.map Column.stored) =
      match (columns.zipIdx n).find? fun found => found.1.name = name with
      | none => -1
      | some (_, k) => (UInt32.ofNat k).toInt32 := by
  induction columns generalizing n with
  | nil => rfl
  | cons column rest ih =>
      rw [List.map_cons, QueryResult.findFieldFrom, Column.getName_stored, List.zipIdx_cons]
      by_cases same : column.name = name
      · rw [if_pos (congrArg some same), List.find?_cons_of_pos (by simpa using same)]
      · rw [if_neg fun other => same (Option.some.inj other),
          List.find?_cons_of_neg (by simpa using same), ← ih (n + 1), UInt32.ofNat_add]
        rfl

theorem findField_stored (name : CString) (columns : List Column) :
    (⟨columns.map Column.stored⟩ : QueryResult).findField name =
      match firstNamed name columns with
      | none => -1
      | some (_, k) => (UInt32.ofNat k).toInt32 :=
  findFieldFrom_stored name columns 0

theorem getElem?_of_firstNamed {name : CString} {columns : List Column} {column : Column} {k : Nat}
    (first : firstNamed name columns = some (column, k)) : columns[k]? = some column :=
  List.mem_zipIdx_iff_getElem?.mp (List.mem_of_find?_eq_some first)

theorem findField_toInt {name : CString} {columns : List Column} {column : Column} {k : Nat}
    (first : firstNamed name columns = some (column, k)) :
    ((⟨columns.map Column.stored⟩ : QueryResult).findField name).toInt =
      (k : Int).bmod (2 ^ 32) := by
  rw [findField_stored, first]
  exact BitVec.toInt_ofNat k

/-- A position below `2^31` leads to its column; any other one is a negative index. -/
theorem fetch_stored {name : CString} {columns : List Column} {column : Column} {k : Nat}
    (first : firstNamed name columns = some (column, k)) (numfields : columns.length < 2 ^ 32) :
    let index := (⟨columns.map Column.stored⟩ : QueryResult).findField name
    let qre := fetch Exn.undefined (columns.map Column.stored) (sizeT index.toInt)
    (k < 2 ^ 31 → index ≠ -1 ∧ qre = .ok column.stored) ∧
      (2 ^ 31 ≤ k → qre = .error .undefined) := by
  have found := getElem?_of_firstNamed first
  have inside : k < columns.length := (List.getElem?_eq_some_iff.mp found).1
  have index := findField_toInt first
  rw [Int.bmod_def] at index
  constructor
  · intro small
    have position : ((⟨columns.map Column.stored⟩ : QueryResult).findField name).toInt = k := by
      omega
    constructor
    · intro missing
      rw [missing] at position
      have negative : (-1 : Int32).toInt = -1 := rfl
      omega
    · rw [position, sizeT_natCast (by omega), fetch, List.getElem?_map, found]
      rfl
  · intro large
    have outside : (columns.map Column.stored).length ≤
        sizeT ((⟨columns.map Column.stored⟩ : QueryResult).findField name).toInt := by
      rw [List.length_map]
      unfold sizeT
      omega
    exact fetch_of_le outside

theorem getField_missing {α : Type} (value : QueryResultElement → α) {name : CString}
    {columns : List Column} (missing : firstNamed name columns = none) (out : α) :
    QueryResult.getField value ⟨columns.map Column.stored⟩ (some name) (some out) =
      .ok (false, some out) := by
  have index := findField_stored name columns
  rw [missing] at index
  exact if_neg (not_not_intro index)

theorem getFieldString_missing {name : CString} {columns : List Column}
    (missing : firstNamed name columns = none) (out : UString) (len : UInt32) :
    QueryResult.getFieldString ⟨columns.map Column.stored⟩ (some name) (some out) len =
      .ok (false, some out) := by
  have index := findField_stored name columns
  rw [missing] at index
  exact if_neg (not_not_intro index)

section Found

variable {name : CString} {columns : List Column} {column : Column} {k : Nat}

/-- A getter of integers returns what it reads in the first element of that name. -/
theorem getField_eq_ok_iff {α : Type} {value : QueryResultElement → α}
    (first : firstNamed name columns = some (column, k)) (numfields : columns.length < 2 ^ 32)
    (out written : α) :
    QueryResult.getField value ⟨columns.map Column.stored⟩ (some name) (some out) =
        .ok (true, some written) ↔ k < 2 ^ 31 ∧ value column.stored = written := by
  obtain ⟨inside, outside⟩ := fetch_stored first numfields
  unfold QueryResult.getField
  by_cases small : k < 2 ^ 31
  · obtain ⟨index, qre⟩ := inside small
    simp only [if_pos index, qre, small, true_and]
    constructor
    · rintro ⟨⟩
      rfl
    · rintro rfl
      rfl
  · simp only [outside (Nat.le_of_not_lt small), small, false_and, iff_false]
    split
    · rintro ⟨⟩
    · rintro ⟨⟩

theorem forall_getField_iff {α : Type} {value : QueryResultElement → α}
    (first : firstNamed name columns = some (column, k)) (numfields : columns.length < 2 ^ 32)
    {written : α} (reads : value column.stored = written) :
    (∀ out, QueryResult.getField value ⟨columns.map Column.stored⟩ (some name) (some out) =
      .ok (true, some written)) ↔ k < 2 ^ 31 := by
  constructor
  · intro returned
    exact ((getField_eq_ok_iff first numfields written written).mp (returned written)).1
  · intro small out
    exact (getField_eq_ok_iff first numfields out written).mpr ⟨small, reads⟩

/-- The getter of strings leaves the array as it was. -/
theorem getFieldString_out {out out' : UString} {len : UInt32} {qr : QueryResult}
    (returned : qr.getFieldString (some name) (some out) len = .ok (true, some out')) :
    out' = out := by
  unfold QueryResult.getFieldString at returned
  simp only at returned
  split at returned
  next =>
    obtain ⟨qre, _, returned⟩ := bind_eq_ok.mp returned
    split at returned
    next => cases returned
    next =>
      obtain ⟨_, _, returned⟩ := bind_eq_ok.mp returned
      cases returned
      rfl
  next => cases returned

end Found

/-! ## What comes out -/

/-- The getter of the type of a value returns true and writes the value; of a string it writes
what fits into the array. -/
def Value.Returned (qr : QueryResult) (name : CString) : Value → Prop
  | .int32 value => ∀ out, qr.getFieldInt32 (some name) (some out) = .ok (true, some value)
  | .uint32 value => ∀ out, qr.getFieldUint32 (some name) (some out) = .ok (true, some value)
  | .int64 value => ∀ out, qr.getFieldInt64 (some name) (some out) = .ok (true, some value)
  | .uint64 value => ∀ out, qr.getFieldUint64 (some name) (some out) = .ok (true, some value)
  | .string value => ∀ (len : UInt32) (out : UString), 0 < len → out.length = len.toNat →
      ∃ out', qr.getFieldString (some name) (some out) len = .ok (true, some out') ∧
        (cStr out').take (len.toNat - 1) = value.bytes.take (len.toNat - 1)

/-- Every getter returns false and writes nothing. -/
structure QueryResult.Missing (qr : QueryResult) (name : CString) : Prop where
  int32 : ∀ out, qr.getFieldInt32 (some name) (some out) = .ok (false, some out)
  uint32 : ∀ out, qr.getFieldUint32 (some name) (some out) = .ok (false, some out)
  int64 : ∀ out, qr.getFieldInt64 (some name) (some out) = .ok (false, some out)
  uint64 : ∀ out, qr.getFieldUint64 (some name) (some out) = .ok (false, some out)
  string : ∀ out len, qr.getFieldString (some name) (some out) len = .ok (false, some out)

/-- The row is prepared, and the getters return for a name what was put in first. -/
def FieldsReturn (row : Row) (name : CString) : Prop :=
  ∃ qr, row.prepare = .ok qr ∧
    match firstNamed name row.columns with
    | none => qr.Missing name
    | some (column, _) => column.value.Returned qr name

/-- Some array of two bytes does not start like a given string. -/
theorem exists_other_array (value : CString) :
    ∃ out : UString, out.length = 2 ∧ (cStr out).take 1 ≠ value.bytes.take 1 := by
  by_cases first : value.bytes.take 1 = [1]
  · refine ⟨[2, 0], rfl, ?_⟩
    rw [first]
    decide
  · refine ⟨[1, 0], rfl, fun same => first (same.symm.trans ?_)⟩
    decide

/-- The value of the first column of a name is returned if it is an integer whose position is
an `int`. -/
theorem returned_iff {name : CString} {columns : List Column} {column : Column} {k : Nat}
    (first : firstNamed name columns = some (column, k)) (numfields : columns.length < 2 ^ 32) :
    column.value.Returned ⟨columns.map Column.stored⟩ name ↔
      k < 2 ^ 31 ∧ column.value.IsInteger := by
  obtain ⟨columnName, value⟩ := column
  cases value with
  | string value =>
      constructor
      · intro returned
        obtain ⟨out, length, other⟩ := exists_other_array value
        obtain ⟨out', written, same⟩ := returned 2 out (by decide) length
        rw [getFieldString_out written] at same
        exact absurd same other
      · rintro ⟨_, ⟨⟩⟩
  | int32 value =>
      exact (forall_getField_iff first numfields value.toInt32_toUInt32).trans
        (and_iff_left trivial).symm
  | uint32 value =>
      exact (forall_getField_iff first numfields rfl).trans (and_iff_left trivial).symm
  | int64 value =>
      exact (forall_getField_iff first numfields value.toInt64_toUInt64).trans
        (and_iff_left trivial).symm
  | uint64 value =>
      exact (forall_getField_iff first numfields rfl).trans (and_iff_left trivial).symm

/-- The getters return what was put in exactly when every string fits and the first column of
the name, if there is one, is an integer whose position is an `int`. -/
theorem fieldsReturn_iff (row : Row) (name : CString) :
    FieldsReturn row name ↔
      (∀ column ∈ row.columns, column.value.Fits) ∧
        ∀ column k, firstNamed name row.columns = some (column, k) →
          k < 2 ^ 31 ∧ column.value.IsInteger := by
  constructor
  · rintro ⟨qr, prepared, fields⟩
    obtain ⟨fits, rfl⟩ := addColumns_eq_ok.mp prepared
    refine ⟨fits, fun column k first => ?_⟩
    rw [first] at fields
    exact (returned_iff first row.numfields).mp fields
  · rintro ⟨fits, integer⟩
    refine ⟨_, addColumns_eq_ok.mpr ⟨fits, rfl⟩, ?_⟩
    cases first : firstNamed name row.columns with
    | none =>
        exact {
          int32 := getField_missing _ first
          uint32 := getField_missing _ first
          int64 := getField_missing _ first
          uint64 := getField_missing _ first
          string := getFieldString_missing first }
    | some found => exact (returned_iff first row.numfields).mpr (integer _ _ first)

/-- A column `x` with the value `abc`. -/
def Row.sample : Row where
  columns := [⟨⟨[120], by decide⟩, .string ⟨[97, 98, 99], by decide⟩⟩]
  numfields := by decide

/-- The element holds the name in the place of the value, and the getter returns true without
writing anything. -/
theorem not_fieldsReturn :
    (∃ qr, Row.sample.prepare = .ok qr ∧
      qr.qrtv.map QueryResultElement.getStringValue = [some ⟨[120], by decide⟩] ∧
      qr.getFieldString (some ⟨[120], by decide⟩) (some [0, 0, 0, 0]) 4 =
        .ok (true, some [0, 0, 0, 0])) ∧
      ¬FieldsReturn Row.sample ⟨[120], by decide⟩ := by
  refine ⟨⟨_, rfl, rfl, rfl⟩, fun ⟨qr, prepared, fields⟩ => ?_⟩
  obtain ⟨_, rfl⟩ := addColumns_eq_ok.mp prepared
  have first : firstNamed ⟨[120], by decide⟩ Row.sample.columns =
      some (⟨⟨[120], by decide⟩, .string ⟨[97, 98, 99], by decide⟩⟩, 0) := rfl
  rw [first] at fields
  exact ((returned_iff first Row.sample.numfields).mp fields).2

end BitMRC.Storage

import BitMRC.Utils.UStringBounds

/-!
# `VarInt_B` as a code

A list of numbers that `appendVarInt_B` has written is read back by `getVarInt_B`, as long as
the `unsigned int` of the cursor can say where the string ends.  Every encoding is the
shortest string for its number, and no proper prefix of it is read.
-/

namespace BitMRC.UString

open Foundation

/-! ## Lists of numbers -/

/-- `for (i : values) s.appendVarInt_B(i);`. -/
def appendVarIntsB (s : UString) (values : List UInt64) : UString :=
  values.foldl appendVarIntB s

/-- As many calls of `getVarInt_B`. -/
def getVarIntsB (count : Nat) : Reader (List Int64) := getVarIntB.replicate count

theorem appendVarIntsB_eq (s : UString) (values : List UInt64) :
    appendVarIntsB s values = s ++ values.flatMap (appendVarIntB []) := by
  unfold appendVarIntsB
  induction values generalizing s with
  | nil => simp
  | cons value values ih =>
      rw [List.foldl_cons, ih, appendVarIntB_eq, List.flatMap_cons, List.append_assoc]

theorem getVarIntsB_decodes (values : List UInt64) :
    Cursor.Decodes (2 ^ 32) (getVarIntsB values.length) (values.flatMap (appendVarIntB []))
      (values.map UInt64.toInt64) :=
  Cursor.Decodes.replicate getVarIntB_decodes values

theorem Endless.getVarIntsB {b : UString} (long : 2 ^ 32 ≤ b.length) (count : Nat) :
    Endless b (getVarIntsB count) := by
  induction count with
  | zero => exact pure []
  | succ count ih => exact (getVarIntB long).bind fun value => ih.bind fun rest => pure _

/-- All numbers are read and the cursor stands at the end, if the end is a cursor. -/
theorem getVarIntsB_appendVarIntsB (values : List UInt64) :
    getVarIntsB values.length (appendVarIntsB [] values) 0 =
        .ok (values.map UInt64.toInt64, (appendVarIntsB [] values).length) ↔
      (appendVarIntsB [] values).length < 2 ^ 32 := by
  constructor
  · intro read
    by_contra long
    exact long ((Endless.getVarIntsB (Nat.le_of_not_lt long) _).stop_lt (by decide) read)
  · intro short
    rw [appendVarIntsB_eq, List.nil_append] at short ⊢
    have read := (getVarIntsB_decodes values).from_start [] (by rwa [List.append_nil])
    rwa [List.append_nil] at read

/-! ## Shortest encodings -/

/-- The number of bytes `appendVarInt_B` takes. -/
def varIntSize (n : Nat) : Nat :=
  if n < 253 then 1 else if n < 65536 then 3 else if n < 4294967296 then 5 else 9

theorem appendVarIntB_length (v : UInt64) :
    (appendVarIntB [] v).length = varIntSize v.toNat := by
  unfold varIntSize
  rcases appendVarIntB_cases v with ⟨small, bytes⟩ | ⟨low, high, bytes⟩ |
    ⟨low, high, bytes⟩ | ⟨low, bytes⟩
  · rw [bytes, if_pos small]
    rfl
  · rw [bytes, if_neg (by omega), if_pos high]
    rfl
  · rw [bytes, if_neg (by omega), if_neg (by omega), if_pos high]
    rfl
  · rw [bytes, if_neg (by omega), if_neg (by omega), if_neg (by omega)]
    rfl

/-- The four widths, by the first byte. -/
theorem varIntWidth_cases (first : UInt8) :
    (first.toNat < 253 ∧ varIntWidth first = 0 ∧
      ∀ bytes, varIntValue first bytes = first.toNat) ∨
    ((first = 253 ∧ varIntWidth first = 2 ∨ first = 254 ∧ varIntWidth first = 4 ∨
        first = 255 ∧ varIntWidth first = 8) ∧
      ∀ bytes, varIntValue first bytes = beNat bytes) := by
  by_cases narrow : first < 253
  · exact .inl ⟨narrow, if_pos narrow, fun bytes => if_pos narrow⟩
  · refine .inr ⟨?_, fun bytes => if_neg narrow⟩
    have range := first.toNat_lt
    rw [UInt8.not_lt, UInt8.le_iff_toNat_le] at narrow
    have marker : first = 253 ∨ first = 254 ∨ first = 255 := by
      simp only [← UInt8.toNat_inj, UInt8.reduceToNat] at narrow ⊢
      omega
    rcases marker with rfl | rfl | rfl
    · exact .inl ⟨rfl, rfl⟩
    · exact .inr (.inl ⟨rfl, rfl⟩)
    · exact .inr (.inr ⟨rfl, rfl⟩)

/-- No string is shorter than what is written for its value. -/
theorem varIntSize_le {first : UInt8} {rest : UString} (width : rest.length = varIntWidth first) :
    varIntSize (varIntValue first rest) ≤ rest.length + 1 := by
  have range := beNat_lt rest
  unfold varIntSize
  rcases varIntWidth_cases first with ⟨small, _, value⟩ | ⟨markers, value⟩
  · rw [value, if_pos small]
    omega
  · rw [value]
    rcases markers with ⟨_, two⟩ | ⟨_, four⟩ | ⟨_, eight⟩
    · rw [width, two] at range ⊢
      have small : beNat rest < 65536 := range
      rw [if_pos small]
      split <;> omega
    · rw [width, four] at range ⊢
      have small : beNat rest < 4294967296 := range
      rw [if_pos small]
      split
      · omega
      split <;> omega
    · rw [width, eight]
      split
      · omega
      split
      · omega
      split <;> omega

/-- Strings of one length and one value are equal. -/
theorem varInt_inj {first other : UInt8} {rest tail : UString}
    (width : rest.length = varIntWidth first) (width' : tail.length = varIntWidth other)
    (length : rest.length = tail.length)
    (value : varIntValue first rest = varIntValue other tail) :
    first :: rest = other :: tail := by
  have bytes : beNat rest = beNat tail → rest = tail := by
    intro same
    rw [← beBytes_beNat rest, ← beBytes_beNat tail, length, same]
  rcases varIntWidth_cases first with ⟨_, zero, here⟩ | ⟨markers, here⟩
  · rcases varIntWidth_cases other with ⟨_, zero', there⟩ | ⟨markers', _⟩
    · rw [here, there] at value
      rw [List.eq_nil_of_length_eq_zero (width.trans zero),
        List.eq_nil_of_length_eq_zero (width'.trans zero'), UInt8.toNat_inj.mp value]
    · omega
  · rcases varIntWidth_cases other with ⟨_, zero', _⟩ | ⟨markers', there⟩
    · omega
    · have same : first = other := by
        rcases markers with ⟨rfl, _⟩ | ⟨rfl, _⟩ | ⟨rfl, _⟩ <;>
          rcases markers' with ⟨rfl, _⟩ | ⟨rfl, _⟩ | ⟨rfl, _⟩ <;> first | rfl | omega
      rw [here, there] at value
      rw [same, bytes value]

/-- What `getVarInt_B` reads completely. -/
theorem getVarIntB_complete {s : UString} {v : UInt64} (nonempty : s ≠ [])
    (read : getVarIntB s 0 = .ok (v.toInt64, s.length)) :
    ∃ first rest, s = first :: rest ∧ rest.length = varIntWidth first ∧
      varIntValue first rest = v.toNat := by
  cases s with
  | nil => exact absurd rfl nonempty
  | cons first rest =>
      refine ⟨first, rest, rfl, ?_⟩
      have short : (first :: rest).length < 2 ^ 32 := by
        by_contra long
        exact long ((Endless.getVarIntB (Nat.le_of_not_lt long)).stop_lt (by decide) read)
      have found := declared_of_getVarIntB short (Nat.zero_le _) read
      rw [declared_inside (Nat.zero_lt_succ _)] at found
      split at found
      next room =>
        obtain ⟨value, width⟩ := Prod.mk.inj (Option.some.inj found)
        simp only [List.getElem_cons_zero, List.length_cons] at value width
        have fits : rest.length = varIntWidth first := by omega
        rw [Nat.zero_add, List.drop_succ_cons, List.drop_zero, ← fits, List.take_length] at value
        exact ⟨fits, value⟩
      next => cases found

/-- The first byte of what is written, and the bytes that it announces. -/
theorem appendVarIntB_eq_cons (v : UInt64) :
    ∃ first rest, appendVarIntB [] v = first :: rest ∧ rest.length = varIntWidth first ∧
      varIntValue first rest = v.toNat :=
  getVarIntB_complete (List.ne_nil_of_length_pos (appendVarIntB_length_pos v))
    (getVarIntB_appendVarIntB v)

/-- What is written for a number is the only shortest string for it. -/
theorem appendVarIntB_shortest {s : UString} {v : UInt64} (nonempty : s ≠ [])
    (read : getVarIntB s 0 = .ok (v.toInt64, s.length)) :
    (appendVarIntB [] v).length ≤ s.length ∧
      (s.length = (appendVarIntB [] v).length → s = appendVarIntB [] v) := by
  obtain ⟨first, rest, rfl, width, value⟩ := getVarIntB_complete nonempty read
  constructor
  · rw [appendVarIntB_length, ← value]
    exact varIntSize_le width
  · intro length
    obtain ⟨other, tail, encoding, width', value'⟩ := appendVarIntB_eq_cons v
    rw [encoding] at length ⊢
    exact varInt_inj width width' (Nat.succ.inj length) (value.trans value'.symm)

/-- A part of what is written is noticed. -/
theorem getVarIntB_prefix {part : UString} {v : UInt64} (nonempty : part ≠ [])
    (leading : part <+: appendVarIntB [] v) (proper : part ≠ appendVarIntB [] v) :
    getVarIntB part 0 = .error readFailure := by
  obtain ⟨first, rest, encoding, width, _⟩ := appendVarIntB_eq_cons v
  have size := appendVarIntB_length_le v
  have fewer : part.length < (appendVarIntB [] v).length :=
    Nat.lt_of_le_of_ne leading.length_le fun same => proper (leading.eq_of_length same)
  rw [encoding] at leading fewer size
  cases part with
  | nil => exact absurd rfl nonempty
  | cons byte bytes =>
      obtain ⟨rfl, _⟩ := List.cons_prefix_cons.mp leading
      simp only [List.length_cons] at fewer size
      refine getVarIntB_cut ?_ (by rw [List.length_cons]; omega)
      rw [declared_inside (Nat.zero_lt_succ _), if_neg]
      rw [List.getElem_cons_zero, List.length_cons]
      omega

/-! ## The code -/

/-- Lists are read back as they were written if and only if they are shorter than `2^32`
bytes, for a cursor is an `unsigned int`; every number has one shortest string, which is the
one that is written, and no part of it is read. -/
theorem varIntB_selfDelimiting :
    (∀ values : List UInt64,
      getVarIntsB values.length (appendVarIntsB [] values) 0 =
          .ok (values.map UInt64.toInt64, (appendVarIntsB [] values).length) ↔
        (appendVarIntsB [] values).length < 2 ^ 32) ∧
    ∀ v : UInt64,
      (appendVarIntB [] v).length ∈ [1, 3, 5, 9] ∧
      getVarIntB (appendVarIntB [] v) 0 = .ok (v.toInt64, (appendVarIntB [] v).length) ∧
      (∀ s ≠ [], getVarIntB s 0 = .ok (v.toInt64, s.length) →
        (appendVarIntB [] v).length ≤ s.length ∧
          (s.length = (appendVarIntB [] v).length → s = appendVarIntB [] v)) ∧
      ∀ part ≠ [], part <+: appendVarIntB [] v → part ≠ appendVarIntB [] v →
        getVarIntB part 0 = .error readFailure := by
  refine ⟨getVarIntsB_appendVarIntsB, fun v => ⟨?_, getVarIntB_appendVarIntB v, ?_, ?_⟩⟩
  · rw [appendVarIntB_length]
    unfold varIntSize
    repeat' split
    all_goals decide
  · intro s nonempty read
    exact appendVarIntB_shortest nonempty read
  · intro part nonempty leading proper
    exact getVarIntB_prefix nonempty leading proper

/-- Behind `2^32` zeros the cursor does not stand at the end. -/
theorem not_varIntB_selfDelimiting :
    ¬∀ values : List UInt64,
      getVarIntsB values.length (appendVarIntsB [] values) 0 =
        .ok (values.map UInt64.toInt64, (appendVarIntsB [] values).length) := by
  intro every
  have zeros (n : Nat) : (appendVarIntsB [] (List.replicate n 0)).length = n := by
    rw [appendVarIntsB_eq, List.nil_append, List.length_flatMap, List.map_replicate]
    simp [appendVarIntB, appendInt8]
  have short := (getVarIntsB_appendVarIntsB _).mp (every (List.replicate (2 ^ 32) 0))
  rw [zeros] at short
  exact Nat.lt_irrefl _ short

end BitMRC.UString

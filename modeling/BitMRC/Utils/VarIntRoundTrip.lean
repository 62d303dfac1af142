import BitMRC.Utils.BigEndian
import BitMRC.Utils.FileUString
import BitMRC.Utils.SocketUString
import BitMRC.Utils.UStringReads

/-!
# Numbers in groups of seven bits: round trips

The readers take 0x80 away for each mark, whatever its place, so that what they return
is too large by the `excess` of the marks; up to two groups there is none.
-/

namespace BitMRC

open Foundation

/-! ## Words from integers -/

theorem toInt32_eq_ofInt (v : UInt32) : v.toInt32 = Int32.ofInt v.toNat := by
  rw [Int32.ofInt_eq_ofNat]
  apply Int32.toBitVec_inj.mp
  apply BitVec.eq_of_toNat_eq
  simp

theorem toInt64_eq_ofInt (v : UInt64) : v.toInt64 = Int64.ofInt v.toNat := by
  rw [Int64.ofInt_eq_ofNat]
  apply Int64.toBitVec_inj.mp
  apply BitVec.eq_of_toNat_eq
  simp

/-- Adding less than 2^31 and not zero changes a word. -/
theorem ofInt32_add_eq_iff {more : Int} (n : Int) (low : 0 ≤ more) (high : more < 2 ^ 31) :
    Int32.ofInt (n + more) = Int32.ofInt n ↔ more = 0 := by
  rw [← Int32.toInt_inj, Int32.toInt_ofInt, Int32.toInt_ofInt]
  simp only [Int.bmod_def, Int32.size]
  omega

theorem ofInt64_add_eq_iff {more : Int} (n : Int) (low : 0 ≤ more) (high : more < 2 ^ 31) :
    Int64.ofInt (n + more) = Int64.ofInt n ↔ more = 0 := by
  rw [← Int64.toInt_inj, Int64.toInt_ofInt, Int64.toInt_ofInt]
  simp only [Int.bmod_def, Int64.size]
  omega

/-! ## 32 bits -/

namespace VarInt

theorem groups_few (v : UInt32) : (groups 128 v.toNat).length ≤ 5 := by
  have range := v.toNat_lt
  exact (length_groups_le_iff (by decide) v.toNat 4).mpr (by omega)

/-- Only up to two groups `getVarInt32` returns the number. -/
theorem total32_eq_iff (v : UInt32) :
    Int32.ofInt (total 5 0 (groupBytes v.toNat)) = v.toInt32 ↔ v.toNat < 2 ^ 14 := by
  have range := v.toNat_lt
  rw [total_eq (groups_few v), toInt32_eq_ofInt]
  rcases excess_cases (n := v.toNat) (by omega) with ⟨small, none⟩ | ⟨large, positive, bounded⟩
  · rw [none, Int.add_zero]
    exact iff_of_true rfl small
  · rw [ofInt32_add_eq_iff _ (Int.le_of_lt positive) bounded]
    exact iff_of_false (Int.ne_of_gt positive) (Nat.not_lt.mpr large)

/-- A reader that passes over the groups of a number and returns what they add up to. -/
theorem get32_eq_iff {source : Source Int32} {limit : Nat} (serves : source.Serves limit)
    (v : UInt32) {before : UString} (short : before.length + (groupBytes v.toNat).length < limit)
    (after : UString) :
    get32 source (before ++ groupBytes v.toNat ++ after) before.length =
        .ok (v.toInt32, (before ++ groupBytes v.toNat).length) ↔ v.toNat < 2 ^ 14 := by
  have few : (groupBytes v.toNat).length ≤ 10 := by
    rw [groupBytes_length]
    exact Nat.le_trans (groups_few v) (by decide)
  have read := get32_passes serves (groupBytes_marksAll v.toNat) few before after short
  rw [List.append_assoc, read, List.length_append, ← total32_eq_iff v]
  simp

/-! ### Where the readers stop -/

/-- A reader that moves stops below `limit`. -/
def StopsBelow {α : Type} (limit : Nat) (reader : Cursor UInt8 Exn α) : Prop :=
  ∀ ⦃s : UString⦄ ⦃i stop : Nat⦄ ⦃value : α⦄, reader s i = .ok (value, stop) →
    stop = i ∨ stop < limit

namespace StopsBelow

variable {α β : Type} {limit : Nat}

theorem pure (value : α) : StopsBelow limit (Pure.pure value : Cursor UInt8 Exn α) := by
  intro s i stop found read
  cases read
  exact .inl rfl

theorem bind {reader : Cursor UInt8 Exn α} {next : α → Cursor UInt8 Exn β}
    (head : StopsBelow limit reader) (tail : ∀ value, StopsBelow limit (next value)) :
    StopsBelow limit (reader >>= next) := by
  intro s i stop result read
  obtain ⟨value, middle, first, second⟩ := Cursor.bind_eq_ok.mp read
  rcases tail value second with rfl | below
  · exact head first
  · exact .inr below

end StopsBelow

section Stops

variable {W : Type} {limit : Nat} {source : Source W}

/-- Everything that a source does stops below `limit`. -/
structure Source.StopsBelow (source : Source W) (limit : Nat) : Prop where
  getInt8 : VarInt.StopsBelow limit source.getInt8
  more : ∀ j, VarInt.StopsBelow limit (source.more j)
  moreSkipped : ∀ j, VarInt.StopsBelow limit (source.moreSkipped j)
  overrun : VarInt.StopsBelow limit source.overrun

theorem skip_stopsBelow (stops : source.StopsBelow limit) (result : W) (rounds j : Nat) :
    StopsBelow limit (skip source result rounds j) := by
  induction rounds generalizing j with
  | zero => exact stops.overrun
  | succ rounds ih =>
      apply (stops.moreSkipped j).bind
      intro more
      split
      · apply stops.getInt8.bind
        intro b
        split
        · exact StopsBelow.pure result
        · exact ih (j + 1)
      · exact stops.overrun

theorem add_stopsBelow [Add W] [Sub W] [OfNat W 0x80] (stops : source.StopsBelow limit)
    (shifted : UInt8 → Nat → W) (rounds j : Nat) (result : W) :
    StopsBelow limit (add source shifted rounds j result) := by
  induction rounds generalizing j result with
  | zero => exact skip_stopsBelow stops result 5 0
  | succ rounds ih =>
      apply (stops.more j).bind
      intro more
      split
      · apply stops.getInt8.bind
        intro b
        split
        · exact StopsBelow.pure _
        · exact ih (j + 1) _
      · exact skip_stopsBelow stops result 5 0

end Stops

end VarInt

namespace UString

theorem varIntSource_stopsBelow {W : Type} [OfNat W 0] :
    (varIntSource : VarInt.Source W).StopsBelow (2 ^ 32) where
  getInt8 s i stop byte read := by
    obtain ⟨_, _, stopEq⟩ := getInt8_eq_ok.mp read
    right
    rw [stopEq, advance]
    omega
  more j s i stop inside read := by
    cases read
    exact .inl rfl
  moreSkipped j s i stop inside read := by
    cases read
    exact .inl rfl
  overrun s i stop value read := by
    cases read
    exact .inr (by decide)

end UString

/-! ### The three classes -/

/-- `appendVarInt32` behind `before` and `getVarInt32` from there, whatever follows. -/
def UString.ReadsBack32 (v : UInt32) (before after : UString) : Prop :=
  UString.getVarInt32 (UString.appendVarInt32 before v ++ after) before.length =
    .ok (v.toInt32, (UString.appendVarInt32 before v).length)

def SocketUString.ReadsBack32 (ending : Ending) (v : UInt32) (before after : UString) : Prop :=
  SocketUString.getVarInt32 ending (SocketUString.sendVarInt32 before v ++ after) before.length =
    .ok (v.toInt32, (SocketUString.sendVarInt32 before v).length)

def FileUString.ReadsBack32 (v : UInt32) (before after : UString) : Prop :=
  FileUString.getVarInt32 (FileUString.writeVarInt32 before v ++ after) before.length =
    .ok (v.toInt32, (FileUString.writeVarInt32 before v).length)

/-- What is appended is read back exactly if it has two groups at most and its end is a
value of the cursor. -/
theorem UString.readsBack32_iff (v : UInt32) (before after : UString) :
    UString.ReadsBack32 v before after ↔
      v.toNat < 2 ^ 14 ∧ (UString.appendVarInt32 before v).length < 2 ^ 32 := by
  have some := length_groups_pos (show 1 < 128 by decide) v.toNat
  unfold UString.ReadsBack32
  rw [UString.appendVarInt32_eq]
  by_cases short : (before ++ VarInt.groupBytes v.toNat).length < 2 ^ 32
  · rw [and_iff_left short]
    rw [List.length_append] at short
    exact VarInt.get32_eq_iff (UString.varIntSource_serves (2 ^ 32)) v short after
  · refine iff_of_false ?_ fun both => short both.2
    intro read
    have stops := VarInt.add_stopsBelow UString.varIntSource_stopsBelow VarInt.shifted32 5 0 0 read
    rw [List.length_append, VarInt.groupBytes_length] at stops short
    omega

theorem SocketUString.readsBack32_iff (ending : Ending) (v : UInt32) (before after : UString) :
    SocketUString.ReadsBack32 ending v before after ↔ v.toNat < 2 ^ 14 := by
  unfold SocketUString.ReadsBack32
  rw [SocketUString.sendVarInt32_eq]
  exact VarInt.get32_eq_iff (SocketUString.varIntSource_serves _) v (Nat.lt_succ_self _) after

theorem FileUString.readsBack32_iff (v : UInt32) (before after : UString) :
    FileUString.ReadsBack32 v before after ↔ v.toNat < 2 ^ 14 := by
  unfold FileUString.ReadsBack32
  rw [FileUString.writeVarInt32_eq]
  exact VarInt.get32_eq_iff (FileUString.varIntSource_serves _) v (Nat.lt_succ_self _) after

/-- Numbers of 32 bits are read back by all three classes exactly below 2^14, and by
`ustring` only where its cursor does not wrap around. -/
theorem varInt32_readsBack_iff (v : UInt32) (before after : UString) :
    (UString.ReadsBack32 v before after ↔
        v.toNat < 2 ^ 14 ∧ (UString.appendVarInt32 before v).length < 2 ^ 32) ∧
      (∀ ending, SocketUString.ReadsBack32 ending v before after ↔ v.toNat < 2 ^ 14) ∧
      (FileUString.ReadsBack32 v before after ↔ v.toNat < 2 ^ 14) :=
  ⟨UString.readsBack32_iff v before after,
    fun ending => SocketUString.readsBack32_iff ending v before after,
    FileUString.readsBack32_iff v before after⟩

/-- The smallest number that none of the classes reads back. -/
theorem not_varInt32_readsBack :
    ¬ UString.ReadsBack32 16384 [] [] ∧
      (∀ ending, ¬ SocketUString.ReadsBack32 ending 16384 [] []) ∧
      ¬ FileUString.ReadsBack32 16384 [] [] := by
  have large : ¬ (16384 : UInt32).toNat < 2 ^ 14 := by decide
  refine ⟨?_, ?_, ?_⟩
  · intro read
    exact large ((UString.readsBack32_iff _ _ _).mp read).1
  · intro ending read
    exact large ((SocketUString.readsBack32_iff ending _ _ _).mp read)
  · intro read
    exact large ((FileUString.readsBack32_iff _ _ _).mp read)

/-! ## 64 bits -/

/-- The shortest bytes of a number in groups of seven bits. -/
structure MinimalGroups (n : Nat) (bytes : UString) : Prop where
  /-- One byte at least, and otherwise as many as the bits need. -/
  length : bytes.length = max 1 ((n.size + 6) / 7)
  marks : VarInt.MarksAll bytes
  value : Nat.ofDigits 128 (bytes.map fun b => b.toNat % 128) = n

namespace VarInt

theorem groupBytes_toNat (n : Nat) : (groupBytes n).map UInt8.toNat = groups 128 n := by
  apply digits_toNat_ofNat
  obtain ⟨init, last, split, marks, low⟩ := groups_split (show 1 < 128 by decide) n
  intro group member
  rw [split] at member
  rcases List.mem_append.mp member with inside | final
  · have range := marks group inside
    omega
  · rw [List.mem_singleton.mp final]
    omega

theorem groupBytes_minimal (n : Nat) : MinimalGroups n (groupBytes n) where
  length := by
    rw [groupBytes_length]
    exact length_groups_eq (show 0 < 7 by decide) n
  marks := groupBytes_marksAll n
  value := by
    have digits : (groupBytes n).map (fun b => b.toNat % 128) = (groups 128 n).map (· % 128) := by
      rw [← groupBytes_toNat, List.map_map]
      rfl
    rw [digits]
    exact ofDigits_groups (by decide) n

/-- Every string gets the same bytes. -/
theorem append64_eq (s : UString) (i : UInt64) :
    append64 s i = (append64 [] i).map (s ++ ·) := by
  by_cases small : i.toNat < 2 ^ 28
  · rw [append64_small s small, append64_small [] small]
    rfl
  · by_cases medium : i.toNat < 2 ^ 35
    · rw [append64_medium s (by omega) medium, append64_medium [] (by omega) medium]
      rfl
    · rw [append64_undefined s (by omega), append64_undefined [] (by omega)]
      rfl

/-- The bytes are the shortest ones exactly up to 28 bits. -/
theorem append64_minimal_iff (i : UInt64) :
    (∃ bytes, append64 [] i = .ok bytes ∧ MinimalGroups i.toNat bytes) ↔ i.toNat < 2 ^ 28 := by
  constructor
  · rintro ⟨bytes, written, minimal⟩
    by_contra large
    by_cases medium : i.toNat < 2 ^ 35
    · rw [append64_medium [] (by omega) medium] at written
      cases written
      have atMost := length_groups_le_iff (show 1 < 128 by decide) i.toNat 4
      have length := minimal.length
      rw [← length_groups_eq (show 0 < 7 by decide)] at length
      simp at length
      omega
    · rw [append64_undefined [] (by omega)] at written
      cases written
  · intro small
    exact ⟨groupBytes i.toNat, append64_small [] small, groupBytes_minimal i.toNat⟩

theorem total64_eq_iff (v : UInt64) (small : v.toNat < 2 ^ 28) :
    Int64.ofInt (total 5 0 (groupBytes v.toNat)) = v.toInt64 ↔ v.toNat < 2 ^ 14 := by
  have few : (groups 128 v.toNat).length ≤ 5 :=
    (length_groups_le_iff (by decide) v.toNat 4).mpr (by omega)
  rw [total_eq few, toInt64_eq_ofInt]
  rcases excess_cases (n := v.toNat) (by omega) with ⟨small, none⟩ | ⟨large, positive, bounded⟩
  · rw [none, Int.add_zero]
    exact iff_of_true rfl small
  · rw [ofInt64_add_eq_iff _ (Int.le_of_lt positive) bounded]
    exact iff_of_false (Int.ne_of_gt positive) (Nat.not_lt.mpr large)

end VarInt

/-- A class writes the shortest bytes of the number behind whatever is there, and reads
them back, whatever follows. -/
def RoundTrips64 (write : UString → UInt64 → Except Exn UString)
    (read : Cursor UInt8 Exn Int64) (v : UInt64) : Prop :=
  ∃ bytes, (∀ s, write s v = .ok (s ++ bytes)) ∧ MinimalGroups v.toNat bytes ∧
    ∀ after, read (bytes ++ after) 0 = .ok (v.toInt64, bytes.length)

/-- A writer with the bytes of `append64` and a reader with the loops of `get64`. -/
theorem roundTrips64_iff {write : UString → UInt64 → Except Exn UString}
    {source : VarInt.Source Int64} (serves : source.Serves (2 ^ 32))
    (appends : ∀ s i, write s i = (VarInt.append64 [] i).map (s ++ ·)) (v : UInt64) :
    RoundTrips64 write (VarInt.get64 source) v ↔ v.toNat < 2 ^ 14 := by
  have read (small : v.toNat < 2 ^ 28) (after : UString) :
      VarInt.get64 source (VarInt.groupBytes v.toNat ++ after) 0 =
        .ok (Int64.ofInt (VarInt.total 5 0 (VarInt.groupBytes v.toNat)),
          (VarInt.groupBytes v.toNat).length) := by
    have few : (VarInt.groupBytes v.toNat).length ≤ 10 := by
      rw [VarInt.groupBytes_length]
      exact (length_groups_le_iff (by decide) v.toNat 9).mpr (by omega)
    exact (VarInt.get64_passes serves (VarInt.groupBytes_marksAll v.toNat) few).from_start
      (Nat.lt_of_le_of_lt few (by decide)) after
  constructor
  · rintro ⟨bytes, written, minimal, back⟩
    have first := written []
    rw [appends] at first
    have computed : VarInt.append64 [] v = .ok bytes := by
      cases computed : VarInt.append64 [] v with
      | error failure =>
          rw [computed] at first
          cases first
      | ok found =>
          rw [computed] at first
          cases first
          rfl
    have small := (VarInt.append64_minimal_iff v).mp ⟨bytes, computed, minimal⟩
    rw [VarInt.append64_small [] small] at computed
    cases computed
    have same := (read small []).symm.trans (back [])
    simp only [Except.ok.injEq, Prod.mk.injEq] at same
    exact (VarInt.total64_eq_iff v small).mp same.1
  · intro small
    have small' : v.toNat < 2 ^ 28 := by omega
    refine ⟨VarInt.groupBytes v.toNat, ?_, VarInt.groupBytes_minimal v.toNat, ?_⟩
    · intro s
      rw [appends, VarInt.append64_small [] small']
      rfl
    · intro after
      rw [read small', (VarInt.total64_eq_iff v small').mpr small]

theorem SocketUString.sendVarInt64_eq (out : UString) (i : UInt64) :
    SocketUString.sendVarInt64 out i = (VarInt.append64 [] i).map (out ++ ·) := by
  unfold SocketUString.sendVarInt64
  cases VarInt.append64 [] i with
  | error failure => rfl
  | ok tmp => exact congrArg Except.ok (SocketUString.sendWhole_eq out tmp)

theorem FileUString.writeVarInt64_eq (file : UString) (i : UInt64) :
    FileUString.writeVarInt64 file i = (VarInt.append64 [] i).map (file ++ ·) := by
  unfold FileUString.writeVarInt64
  cases VarInt.append64 [] i with
  | error failure => rfl
  | ok tmp => rfl

/-- Numbers of 64 bits make the round trip in all three classes exactly below 2^14. -/
theorem varInt64_roundTrips_iff (v : UInt64) :
    (RoundTrips64 UString.appendVarInt64 UString.getVarInt64 v ↔ v.toNat < 2 ^ 14) ∧
      (∀ ending, RoundTrips64 SocketUString.sendVarInt64 (SocketUString.getVarInt64 ending) v ↔
        v.toNat < 2 ^ 14) ∧
      (RoundTrips64 FileUString.writeVarInt64 FileUString.getVarInt64 v ↔ v.toNat < 2 ^ 14) :=
  ⟨roundTrips64_iff (UString.varIntSource_serves _) VarInt.append64_eq v,
    fun _ => roundTrips64_iff (SocketUString.varIntSource_serves _)
      SocketUString.sendVarInt64_eq v,
    roundTrips64_iff (FileUString.varIntSource_serves _) FileUString.writeVarInt64_eq v⟩

/-- Below 2^28 only the readers fail, from there on the writers too. -/
theorem not_varInt64_roundTrips :
    ¬ RoundTrips64 UString.appendVarInt64 UString.getVarInt64 16384 ∧
      ¬ RoundTrips64 UString.appendVarInt64 UString.getVarInt64 268435456 := by
  constructor
  · intro trips
    exact absurd ((roundTrips64_iff (UString.varIntSource_serves _) VarInt.append64_eq _).mp trips)
      (by decide)
  · intro trips
    exact absurd ((roundTrips64_iff (UString.varIntSource_serves _) VarInt.append64_eq _).mp trips)
      (by decide)

end BitMRC

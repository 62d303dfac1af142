import BitMRC.Foundation.Marked
import BitMRC.Utils.UStringCodec

/-!
# Numbers in groups of seven bits

`ustring`, `socket_ustring` and `file_ustring` each have their own copy of the writers
and readers of these numbers.  The copies differ in the bytes they take from where, so
that each of the loops stands here once, and the classes apply it to their own bytes.
-/

namespace BitMRC

open Foundation

namespace VarInt

/-! ## Writers -/

/-- The loop of `appendVarInt32`. -/
def put32 (put : UString → UInt8 → UString) (out : UString) (i : UInt32) : UString :=
  if 0x80 ≤ i then
    put32 put (put out (i ||| 0x80).toUInt8) (i >>> 7)
  else
    put out i.toUInt8
termination_by i.toNat
decreasing_by
  rename_i large
  rw [UInt32.le_iff_toNat_le] at large
  simp only [UInt32.toNat_shiftRight, Nat.shiftRight_eq_div_pow]
  simp at large ⊢
  omega

/-- `size` in `appendVarInt64`: the groups that the number needs. -/
def size64 (i : UInt64) : Nat :=
  let part0 := i.toUInt32
  let part1 := (i >>> 28).toUInt32
  let part2 := (i >>> 56).toUInt32
  if part2 = 0 then
    if part1 = 0 then
      if part0.toNat < 1 <<< 14 then
        if part0.toNat < 1 <<< 7 then 1 else 2
      else
        if part0.toNat < 1 <<< 21 then 3 else 4
    else
      if part1.toNat < 1 <<< 14 then
        if part1.toNat < 1 <<< 7 then 5 else 6
      else
        if part1.toNat < 1 <<< 21 then 7 else 8
  else
    if part2.toNat < 1 <<< 7 then 9 else 10

/-- `(part0 >> j*7) | 0x80`; a word of 32 bits is not shifted by more than 31. -/
def group64 (part0 : UInt32) (j : Nat) : Except Exn UInt8 :=
  if j * 7 < 32 then
    .ok ((part0 >>> UInt32.ofNat (j * 7)) ||| 0x80).toUInt8
  else
    .error .undefined

/-- One of the three loops of `appendVarInt64`; all of them take their groups from the
low 32 bits of the number. -/
def groups64 (part0 : UInt32) (s : UString) (rounds : Nat) : Except Exn UString :=
  (List.range rounds).foldlM (fun s j => do return UString.appendInt8 s (← group64 part0 j)) s

/-- The body of `appendVarInt64`; at the end the last byte loses its mark. -/
def append64 (s : UString) (i : UInt64) : Except Exn UString := do
  let part0 := i.toUInt32
  let size := size64 i
  let s ← groups64 part0 s size
  let s ← groups64 part0 s (size - 4)
  let s ← groups64 part0 s (size - 8)
  return s.modify (s.length - 1) (· &&& 0x7F)

/-! ## Readers -/

/-- What a class reads from: its bytes, the conditions of the two loops besides
`j < 5`, and what it does after ten marked bytes. -/
structure Source (W : Type) where
  getInt8 : Cursor UInt8 Exn UInt8
  more : Nat → Cursor UInt8 Exn Bool
  moreSkipped : Nat → Cursor UInt8 Exn Bool
  overrun : Cursor UInt8 Exn W

section Readers

variable {W : Type} [Add W] [Sub W] [OfNat W 0x80]

/-- The second loop of `getVarInt32`: groups that are read and not used. -/
def skip (source : Source W) (result : W) : (rounds j : Nat) → Cursor UInt8 Exn W
  | 0, _ =>
      -- ten marked bytes
      source.overrun
  | rounds + 1, j => do
      if ← source.moreSkipped j then
        let b ← source.getInt8
        if b &&& 0x80 = 0 then
          return result
        else
          skip source result rounds (j + 1)
      else
        source.overrun

/-- The first loop, with `shifted b j` for `b << 7*j`. -/
def add (source : Source W) (shifted : UInt8 → Nat → W) :
    (rounds j : Nat) → (result : W) → Cursor UInt8 Exn W
  | 0, _, result => skip source result 5 0
  | rounds + 1, j, result => do
      if ← source.more j then
        let b ← source.getInt8
        let result := result + shifted b j
        if b &&& 0x80 = 0 then
          return result
        else
          add source shifted rounds (j + 1) (result - 0x80)
      else
        skip source result 5 0

end Readers

/-- `b << 7*j` for an `int32_t b`. -/
def shifted32 (b : UInt8) (j : Nat) : Int32 := b.toUInt32.toInt32 <<< Int32.ofNat (7 * j)

/-- `b << 7*j` for an `int64_t b`. -/
def shifted64 (b : UInt8) (j : Nat) : Int64 := b.toUInt64.toInt64 <<< Int64.ofNat (7 * j)

def get32 (source : Source Int32) : Cursor UInt8 Exn Int32 := add source shifted32 5 0 0

def get64 (source : Source Int64) : Cursor UInt8 Exn Int64 := add source shifted64 5 0 0

/-! ## The bytes of a number -/

/-- The groups of a number as bytes, lowest first, all but the last marked. -/
def groupBytes (n : Nat) : UString := (groups 128 n).map UInt8.ofNat

@[simp] theorem groupBytes_length (n : Nat) : (groupBytes n).length = (groups 128 n).length :=
  List.length_map _

theorem groupBytes_of_lt {n : Nat} (small : n < 128) : groupBytes n = [UInt8.ofNat n] := by
  rw [groupBytes, groups_of_lt small, List.map_singleton]

theorem groupBytes_of_le {n : Nat} (large : 128 ≤ n) :
    groupBytes n = UInt8.ofNat (n % 128 + 128) :: groupBytes (n / 128) := by
  rw [groupBytes, groups_of_le (by decide) large, List.map_cons]
  rfl

/-! ### Bits of bytes -/

theorem or_mark (b : UInt8) : b ||| 0x80 = UInt8.ofNat (b.toNat % 128 + 128) := by
  have all : ∀ n < 256, n ||| 128 = (n % 128 + 128) % 256 := by decide +kernel
  apply UInt8.toNat_inj.mp
  simpa using all b.toNat b.toNat_lt

theorem and_mark_eq_zero (b : UInt8) : b &&& 0x80 = 0 ↔ b.toNat < 128 := by
  have all : ∀ n < 256, n &&& 128 = 0 ↔ n < 128 := by decide +kernel
  rw [← UInt8.toNat_inj]
  simpa using all b.toNat b.toNat_lt

theorem and_rest (b : UInt8) : b &&& 0x7F = UInt8.ofNat (b.toNat % 128) := by
  have all : ∀ n < 256, n &&& 127 = n % 128 := by decide +kernel
  apply UInt8.toNat_inj.mp
  have value := all b.toNat b.toNat_lt
  simp [value]
  omega

theorem put32_eq {put : UString → UInt8 → UString}
    (appends : ∀ out byte, put out byte = out ++ [byte]) (out : UString) (i : UInt32) :
    put32 put out i = out ++ groupBytes i.toNat := by
  induction out, i using put32.induct put with
  | case1 out i large ih =>
      have large' : 128 ≤ i.toNat := by simpa [UInt32.le_iff_toNat_le] using large
      have rest : (i >>> 7).toNat = i.toNat / 128 := by
        simp [Nat.shiftRight_eq_div_pow]
      have byte : (i ||| 0x80).toUInt8 = UInt8.ofNat (i.toNat % 128 + 128) := by
        have marked := or_mark i.toUInt8
        have digit : i.toUInt8.toNat % 128 = i.toNat % 128 := by simp
        rw [digit] at marked
        simpa using marked
      rw [put32, if_pos large, ih, appends, rest, groupBytes_of_le large', byte,
        List.append_assoc, List.singleton_append]
  | case2 out i small =>
      have small' : i.toNat < 128 := by simpa [UInt32.le_iff_toNat_le] using small
      have byte : i.toUInt8 = UInt8.ofNat i.toNat := by simp
      rw [put32, if_neg small, appends, groupBytes_of_lt small', byte]

/-! ### The three loops of `appendVarInt64` -/

/-- Group `j` of a number, marked. -/
def markedGroup (n j : Nat) : UInt8 := UInt8.ofNat (n / 128 ^ j % 128 + 128)

theorem group64_eq (part0 : UInt32) {j : Nat} (low : j < 5) :
    group64 part0 j = .ok (markedGroup part0.toNat j) := by
  have width : j * 7 < 32 := by omega
  have amount : (UInt32.ofNat (j * 7)).toNat = j * 7 := by
    rw [UInt32.toNat_ofNat_of_lt']
    simp [UInt32.size]
    omega
  have shifted : (part0 >>> UInt32.ofNat (j * 7)).toUInt8.toNat % 128 =
      part0.toNat / 128 ^ j % 128 := by
    have power : 2 ^ (j * 7) = 128 ^ j := by rw [Nat.mul_comm, Nat.pow_mul]
    simp only [UInt32.toNat_toUInt8, UInt32.toNat_shiftRight, amount, Nat.mod_eq_of_lt width,
      Nat.shiftRight_eq_div_pow, power]
    omega
  have marked := or_mark (part0 >>> UInt32.ofNat (j * 7)).toUInt8
  rw [shifted] at marked
  rw [group64, if_pos width, markedGroup, ← marked]
  simp

theorem groups64_eq (part0 : UInt32) (s : UString) {rounds : Nat} (few : rounds ≤ 5) :
    groups64 part0 s rounds = .ok (s ++ (List.range rounds).map (markedGroup part0.toNat)) := by
  induction rounds with
  | zero => simp [groups64, pure, Except.pure]
  | succ rounds ih =>
      have before := ih (by omega)
      rw [groups64] at before ⊢
      rw [List.range_succ, List.foldlM_append, before, List.map_append, ← List.append_assoc]
      simp [bind, Except.bind, pure, Except.pure, group64_eq part0 (show rounds < 5 by omega),
        UString.appendInt8]

theorem groups64_undefined (part0 : UInt32) (s : UString) {rounds : Nat} (many : 5 < rounds) :
    groups64 part0 s rounds = .error .undefined := by
  have five := groups64_eq part0 s (Nat.le_refl 5)
  obtain ⟨extra, rfl⟩ := Nat.exists_eq_add_of_lt many
  have outside : group64 part0 5 = .error .undefined := by
    rw [group64, if_neg (by decide)]
  have next : List.range (extra + 1) = 0 :: (List.range extra).map Nat.succ :=
    List.range_succ_eq_map
  rw [groups64] at five ⊢
  rw [Nat.add_assoc, List.range_add, List.foldlM_append, five, next, List.map_cons]
  simp [bind, Except.bind, outside]

/-- The hard-coded tree counts the groups. -/
theorem size64_eq (i : UInt64) : size64 i = (groups 128 i.toNat).length := by
  have range := i.toNat_lt
  have some := length_groups_pos (show 1 < 128 by decide) i.toNat
  have bound := length_groups_le_iff (show 1 < 128 by decide) i.toNat
  have one := bound 0
  have two := bound 1
  have three := bound 2
  have four := bound 3
  have five := bound 4
  have six := bound 5
  have seven := bound 6
  have eight := bound 7
  have nine := bound 8
  have ten := bound 9
  unfold size64
  simp only [← UInt32.toNat_inj, UInt64.toNat_toUInt32, UInt64.toNat_shiftRight,
    Nat.shiftRight_eq_div_pow]
  simp at *
  split <;> split <;> try split
  all_goals try split
  all_goals omega

theorem modify_last (s : UString) (b : UInt8) (f : UInt8 → UInt8) :
    (s ++ [b]).modify ((s ++ [b]).length - 1) f = s ++ [f b] := by
  induction s with
  | nil => rfl
  | cons first rest ih =>
      have length : (first :: rest ++ [b]).length - 1 = (rest ++ [b]).length - 1 + 1 := by simp
      rw [length, List.cons_append, List.modify_succ_cons, ih, List.cons_append]

theorem and_rest_markedGroup (n j : Nat) :
    markedGroup n j &&& 0x7F = UInt8.ofNat (n / 128 ^ j % 128) := by
  rw [and_rest, markedGroup, UInt8.toNat_ofNat']
  congr 1
  omega

/-- Up to 28 bits `appendVarInt64` writes the groups of the number. -/
theorem append64_small (s : UString) {i : UInt64} (small : i.toNat < 2 ^ 28) :
    append64 s i = .ok (s ++ groupBytes i.toNat) := by
  have few : (groups 128 i.toNat).length ≤ 4 :=
    (length_groups_le_iff (by decide) i.toNat 3).mpr (by simpa using small)
  have some := length_groups_pos (show 1 < 128 by decide) i.toNat
  have low : i.toUInt32.toNat = i.toNat := by
    simp
    omega
  obtain ⟨count, length⟩ := Nat.exists_eq_add_of_lt some
  rw [Nat.zero_add] at length
  have bytes : groupBytes i.toNat = (List.range count).map (markedGroup i.toNat) ++
      [UInt8.ofNat (i.toNat / 128 ^ count % 128)] := by
    have places := groups_eq_range (show 1 < 128 by decide) i.toNat
    rw [length, Nat.add_sub_cancel] at places
    rw [groupBytes, places, List.map_append, List.map_map]
    rfl
  have none : count + 1 - 4 = 0 := by omega
  have none' : count + 1 - 8 = 0 := by omega
  simp only [append64, size64_eq, length, none, none',
    groups64_eq i.toUInt32 _ (show count + 1 ≤ 5 by omega),
    groups64_eq i.toUInt32 _ (Nat.zero_le 5), bind, Except.bind, pure, Except.pure]
  rw [List.range_zero, List.map_nil, List.append_nil, List.append_nil, List.range_succ,
    List.map_append, List.map_singleton, ← List.append_assoc, modify_last, and_rest_markedGroup,
    low, bytes, List.append_assoc]

/-- From 28 bits on the second loop starts again with the lowest group. -/
theorem append64_medium (s : UString) {i : UInt64} (low : 2 ^ 28 ≤ i.toNat)
    (high : i.toNat < 2 ^ 35) :
    append64 s i = .ok (s ++ ((List.range 5).map (markedGroup i.toUInt32.toNat) ++
      [UInt8.ofNat (i.toUInt32.toNat % 128)])) := by
  have size : size64 i = 5 := by
    have atMost := length_groups_le_iff (show 1 < 128 by decide) i.toNat 4
    have atLeast := length_groups_le_iff (show 1 < 128 by decide) i.toNat 3
    rw [size64_eq]
    omega
  have first := and_rest_markedGroup i.toUInt32.toNat 0
  rw [Nat.pow_zero, Nat.div_one] at first
  simp only [append64, size, groups64_eq i.toUInt32 _ (show 5 ≤ 5 by decide),
    groups64_eq i.toUInt32 _ (show 5 - 4 ≤ 5 by decide),
    groups64_eq i.toUInt32 _ (show 5 - 8 ≤ 5 by decide), bind, Except.bind, pure, Except.pure]
  rw [show List.range (5 - 8) = [] from rfl, show List.range (5 - 4) = [0] from rfl, List.map_nil,
    List.append_nil, List.map_singleton, modify_last, first, List.append_assoc]

/-- From 35 bits on the first loop shifts by more bits than its word has. -/
theorem append64_undefined (s : UString) {i : UInt64} (large : 2 ^ 35 ≤ i.toNat) :
    append64 s i = .error .undefined := by
  have size : 5 < size64 i := by
    have atMost := length_groups_le_iff (show 1 < 128 by decide) i.toNat 4
    rw [size64_eq]
    omega
  rw [append64, groups64_undefined i.toUInt32 s size]
  rfl

/-! ## What the readers make of marked bytes -/

/-- Reading `byte` first: the condition of the loop holds in front of it. -/
structure Source.Serves {W : Type} (source : Source W) (limit : Nat) : Prop where
  getInt8 : ∀ byte, Cursor.Passes limit source.getInt8 [byte] byte
  more : ∀ (j : Nat) (before : UString) (byte : UInt8) (after : UString), j ≤ before.length →
    source.more j (before ++ byte :: after) before.length = .ok (true, before.length)
  moreSkipped : ∀ (j : Nat) (before : UString) (byte : UInt8) (after : UString),
    j ≤ before.length →
      source.moreSkipped j (before ++ byte :: after) before.length = .ok (true, before.length)

/-- The words that the readers count with are the integers modulo their size. -/
structure Wraps {W : Type} [Add W] [Sub W] [OfNat W 0x80] (ofInt : Int → W)
    (shifted : UInt8 → Nat → W) : Prop where
  add : ∀ a b, ofInt (a + b) = ofInt a + ofInt b
  mark : ∀ a, ofInt (a - 128) = ofInt a - 0x80
  shifted : ∀ b j, j < 5 → shifted b j = ofInt (b.toNat * 128 ^ j)

/-- What the first loop adds up, taking away 0x80 for each mark, whatever its place. -/
def total : (rounds j : Nat) → UString → Int
  | 0, _, _ => 0
  | _, _, [] => 0
  | rounds + 1, j, b :: rest =>
      b.toNat * 128 ^ j + if b.toNat < 128 then 0 else total rounds (j + 1) rest - 128

section Reads

variable {α W : Type} {limit : Nat} {source : Source W}

/-- One round of a loop. -/
theorem round_behind {condition : Cursor UInt8 Exn Bool} {next : UInt8 → Cursor UInt8 Exn α}
    {other : Cursor UInt8 Exn α} {byte : UInt8} {rest : UString} {value : α} {j : Nat}
    (serves : source.Serves limit)
    (holds : ∀ before after : UString, j ≤ before.length →
      condition (before ++ byte :: after) before.length = .ok (true, before.length))
    (tail : Cursor.PassesBehind (j + 1) limit (next byte) rest value) :
    Cursor.PassesBehind j limit
      (condition >>= fun more => if more = true then source.getInt8 >>= next else other)
      (byte :: rest) value := by
  intro before after behind short
  have here := holds before (rest ++ after) behind
  have read := ((serves.getInt8 byte).behind j).bind tail
  have found := read before after behind short
  rw [List.cons_append, Cursor.bind_of_ok here]
  exact found

theorem skip_behind (serves : source.Serves limit) {init : UString} {last : UInt8} {rounds j : Nat}
    (marks : ∀ b ∈ init, 128 ≤ b.toNat) (low : last.toNat < 128) (enough : init.length < rounds)
    (result : W) :
    Cursor.PassesBehind j limit (skip source result rounds j) (init ++ [last]) result := by
  induction init generalizing rounds j with
  | nil =>
      obtain ⟨more, rfl⟩ := Nat.exists_eq_add_of_lt enough
      apply round_behind serves fun before => serves.moreSkipped j before last
      rw [if_pos ((and_mark_eq_zero last).mpr low)]
      exact (Cursor.Passes.pure limit result).behind _
  | cons b init ih =>
      obtain ⟨more, rfl⟩ := Nat.exists_eq_add_of_lt enough
      have marked := marks b List.mem_cons_self
      apply round_behind serves fun before => serves.moreSkipped j before b
      rw [if_neg (fun zero => Nat.not_lt.mpr marked ((and_mark_eq_zero b).mp zero))]
      exact ih (fun other member => marks other (List.mem_cons_of_mem _ member))
        (by simp; omega)

variable [Add W] [Sub W] [OfNat W 0x80] {ofInt : Int → W} {shifted : UInt8 → Nat → W}

theorem add_behind (serves : source.Serves limit) (wraps : Wraps ofInt shifted) {init : UString}
    {last : UInt8} {rounds j : Nat} (marks : ∀ b ∈ init, 128 ≤ b.toNat) (low : last.toNat < 128)
    (places : j + rounds ≤ 5) (enough : init.length < rounds + 5) (start : Int) :
    Cursor.PassesBehind j limit (add source shifted rounds j (ofInt start)) (init ++ [last])
      (ofInt (start + total rounds j (init ++ [last]))) := by
  induction init generalizing rounds j start with
  | nil =>
      cases rounds with
      | zero =>
          have skipped := skip_behind (j := 0) serves marks low enough (ofInt start)
          simpa [total, add] using skipped.mono (Nat.zero_le j)
      | succ rounds =>
          apply round_behind serves fun before => serves.more j before last
          rw [if_pos ((and_mark_eq_zero last).mpr low), wraps.shifted last j (by omega),
            ← wraps.add]
          simpa [total, low] using (Cursor.Passes.pure limit _).behind _
  | cons b init ih =>
      have marked := marks b List.mem_cons_self
      cases rounds with
      | zero =>
          have skipped := skip_behind (j := 0) serves marks low (by simpa using enough)
            (ofInt start)
          simpa [total, add] using skipped.mono (Nat.zero_le j)
      | succ rounds =>
          have rest := ih (fun other member => marks other (List.mem_cons_of_mem _ member))
            (show j + 1 + rounds ≤ 5 by omega) (by simp at enough; omega)
            (start + b.toNat * 128 ^ j - 128)
          apply round_behind serves fun before => serves.more j before b
          rw [if_neg (fun zero => Nat.not_lt.mpr marked ((and_mark_eq_zero b).mp zero)),
            wraps.shifted b j (by omega), ← wraps.add, ← wraps.mark]
          have value : start + total (rounds + 1) j (b :: init ++ [last]) =
              start + b.toNat * 128 ^ j - 128 + total rounds (j + 1) (init ++ [last]) := by
            rw [List.cons_append, total, if_neg (Nat.not_lt.mpr marked)]
            ring
          rw [value]
          exact rest

end Reads

/-- What the marks of `count` groups are too much by, from place `j` on: each is taken
away as 0x80 and not as 0x80 at its place. -/
def excess : (j count : Nat) → Int
  | _, 0 => 0
  | j, count + 1 => 128 * (128 ^ j - 1) + excess (j + 1) count

theorem total_groupBytes {n rounds : Nat} (enough : (groups 128 n).length ≤ rounds) (j : Nat) :
    total rounds j (groupBytes n) = n * 128 ^ j + excess j ((groups 128 n).length - 1) := by
  induction n using groups_induction (show 1 < 128 by decide) generalizing rounds j with
  | last n small =>
      rw [groups_of_lt small] at enough ⊢
      obtain ⟨more, rfl⟩ := Nat.exists_eq_add_of_lt enough
      have value : (UInt8.ofNat n).toNat = n := by
        simp
        omega
      simp [groupBytes_of_lt small, total, value, small, excess]
  | more n large ih =>
      have some := length_groups_pos (show 1 < 128 by decide) (n / 128)
      rw [groups_of_le (by decide) large, List.length_cons] at enough ⊢
      obtain ⟨more, rfl⟩ := Nat.exists_eq_add_of_lt enough
      have value : (UInt8.ofNat (n % 128 + 128)).toNat = n % 128 + 128 := by
        simp
        omega
      have rest := @ih ((groups 128 (n / 128)).length + more) (by omega) (j + 1)
      have count : (groups 128 (n / 128)).length + 1 - 1 =
          (groups 128 (n / 128)).length - 1 + 1 := by omega
      have split : (n : Int) = n % 128 + 128 * ↑(n / 128) := by omega
      rw [groupBytes_of_le large, total, value, if_neg (by omega), rest, count, excess]
      push_cast
      rw [pow_succ]
      conv_rhs => rw [split]
      push_cast
      ring

/-- A byte at its place is a natural number. -/
theorem placed_eq (b : UInt8) (j : Nat) :
    (b.toNat : Int) * 128 ^ j = ((b.toNat * 2 ^ (7 * j) : Nat) : Int) := by
  rw [Nat.pow_mul]
  push_cast
  rfl

theorem wraps32 : Wraps Int32.ofInt shifted32 where
  add := Int32.ofInt_add
  mark a := Int32.ofInt_sub a 128
  shifted b j low := by
    have amount : (Int32.ofNat (7 * j)).toBitVec.smod 32 = BitVec.ofNat 32 (7 * j) := by
      interval_cases j <;> decide
    have small : 7 * j % 4294967296 = 7 * j := by omega
    rw [placed_eq, Int32.ofInt_eq_ofNat]
    apply Int32.toBitVec_inj.mp
    rw [shifted32, Int32.toBitVec_shiftLeft, amount]
    apply BitVec.eq_of_toNat_eq
    simp [Nat.shiftLeft_eq, small]

theorem wraps64 : Wraps Int64.ofInt shifted64 where
  add := Int64.ofInt_add
  mark a := Int64.ofInt_sub a 128
  shifted b j low := by
    have amount : (Int64.ofNat (7 * j)).toBitVec.smod 64 = BitVec.ofNat 64 (7 * j) := by
      interval_cases j <;> decide
    have small : 7 * j % 18446744073709551616 = 7 * j := by omega
    rw [placed_eq, Int64.ofInt_eq_ofNat]
    apply Int64.toBitVec_inj.mp
    rw [shifted64, Int64.toBitVec_shiftLeft, amount]
    apply BitVec.eq_of_toNat_eq
    simp [Nat.shiftLeft_eq, small]

/-- All bytes but the last are marked. -/
def MarksAll (bytes : UString) : Prop :=
  ∃ init last, bytes = init ++ [last] ∧ (∀ b ∈ init, 128 ≤ b.toNat) ∧ last.toNat < 128

theorem groupBytes_marksAll (n : Nat) : MarksAll (groupBytes n) := by
  obtain ⟨init, last, split, marks, low⟩ := groups_split (show 1 < 128 by decide) n
  refine ⟨init.map UInt8.ofNat, UInt8.ofNat last, ?_, ?_, ?_⟩
  · rw [groupBytes, split, List.map_append, List.map_singleton]
  · intro b member
    obtain ⟨group, inside, rfl⟩ := List.mem_map.mp member
    have range := marks group inside
    simp
    omega
  · simp
    omega

section Passes

variable {limit : Nat} {bytes : UString}

/-- Ten bytes at most are taken for one number. -/
theorem get32_passes {source : Source Int32} (serves : source.Serves limit)
    (marksAll : MarksAll bytes) (few : bytes.length ≤ 10) :
    Cursor.Passes limit (get32 source) bytes (Int32.ofInt (total 5 0 bytes)) := by
  obtain ⟨init, last, rfl, marks, low⟩ := marksAll
  have read := add_behind serves wraps32 marks low (show 0 + 5 ≤ 5 by decide)
    (by simp at few; omega) 0
  rw [Int.zero_add] at read
  exact read.passes

theorem get64_passes {source : Source Int64} (serves : source.Serves limit)
    (marksAll : MarksAll bytes) (few : bytes.length ≤ 10) :
    Cursor.Passes limit (get64 source) bytes (Int64.ofInt (total 5 0 bytes)) := by
  obtain ⟨init, last, rfl, marks, low⟩ := marksAll
  have read := add_behind serves wraps64 marks low (show 0 + 5 ≤ 5 by decide)
    (by simp at few; omega) 0
  rw [Int.zero_add] at read
  exact read.passes

end Passes

/-- The bytes of a number add up to it, and to the excess of its marks. -/
theorem total_eq {n : Nat} (few : (groups 128 n).length ≤ 5) :
    total 5 0 (groupBytes n) = n + excess 0 ((groups 128 n).length - 1) := by
  simpa using total_groupBytes few 0

/-- Nothing is in excess up to two groups; with more it is below 2^31 and not zero. -/
theorem excess_cases {n : Nat} (few : n < 2 ^ 35) :
    (n < 2 ^ 14 ∧ excess 0 ((groups 128 n).length - 1) = 0) ∨
      (2 ^ 14 ≤ n ∧ 0 < excess 0 ((groups 128 n).length - 1) ∧
        excess 0 ((groups 128 n).length - 1) < 2 ^ 31) := by
  have some := length_groups_pos (show 1 < 128 by decide) n
  have bound := length_groups_le_iff (show 1 < 128 by decide) n
  have two := bound 1
  have five := bound 4
  obtain ⟨count, length⟩ := Nat.exists_eq_add_of_lt some
  rw [Nat.zero_add] at length
  rw [length, Nat.add_sub_cancel]
  by_cases small : n < 2 ^ 14
  · have low : count < 2 := by omega
    left
    interval_cases count <;> exact ⟨small, rfl⟩
  · have high : 2 ≤ count := by omega
    have low : count < 5 := by omega
    right
    interval_cases count <;> exact ⟨by omega, by decide, by decide⟩

end VarInt

/-! ## `ustring` -/

namespace UString

def appendVarInt32 (s : UString) (i : UInt32) : UString := VarInt.put32 appendInt8 s i

def appendVarInt64 (s : UString) (i : UInt64) : Except Exn UString := VarInt.append64 s i

/-- `appendVarUstring` and `appendVarString`. -/
def appendVarUstring (s str : UString) : UString :=
  appendVarInt32 s (UInt32.ofNat str.length) ++ str

/-- The second loop of `ustring` compares its counter with the length, not its cursor;
an overrun puts the cursor to -1. -/
def varIntSource {W : Type} [OfNat W 0] : VarInt.Source W where
  getInt8 := getInt8
  more _ := fun s i => .ok (decide (i < s.length), i)
  moreSkipped j := fun s i => .ok (decide (j < s.length), i)
  overrun := fun _ _ => .ok (0, 2 ^ 32 - 1)

def getVarInt32 : Reader Int32 := VarInt.get32 varIntSource

def getVarInt64 : Reader Int64 := VarInt.get64 varIntSource

/-- `getVarUstring` and `getVarString`. -/
def getVarUstring : Reader UString := do
  let len ← getVarInt32
  getUstring len.toInt

theorem appendVarInt32_eq (s : UString) (i : UInt32) :
    appendVarInt32 s i = s ++ VarInt.groupBytes i.toNat :=
  VarInt.put32_eq (fun _ _ => rfl) s i

theorem varIntSource_serves {W : Type} [OfNat W 0] (limit : Nat) [CursorLimit limit] :
    (varIntSource : VarInt.Source W).Serves limit where
  getInt8 := getInt8_passes
  more j before byte after _ := by simp [varIntSource]
  moreSkipped j before byte after behind := by
    have inside : j < before.length + (after.length + 1) := by omega
    simp [varIntSource, inside]

end UString

end BitMRC

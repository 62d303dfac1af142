import Mathlib.Data.List.TakeDrop

/-!
# Cursor readers

A cursor reader sees a whole buffer and a position in it.  It returns a value
together with the position it stopped at, or fails.  Nothing forces a reader to
move forwards or to stay inside the buffer, so these two properties are stated
separately, as `Forward` and `Local`.

`Decodes` is the round-trip property: a reader placed in front of a given
encoding returns the encoded value and stops directly behind the encoding.
Encodings of consecutive fields are composed by `Decodes.bind`.
-/

namespace Foundation

variable {σ ε α β : Type}

/-- Readers over a buffer of symbols `σ` that may fail with an error in `ε`. -/
def Cursor (σ ε α : Type) : Type := List σ → Nat → Except ε (α × Nat)

namespace Cursor

/-- Return a value without reading. -/
protected def pure (value : α) : Cursor σ ε α := fun _ position => .ok (value, position)

/-- Run a reader and continue at the position where it stopped. -/
protected def bind (reader : Cursor σ ε α) (next : α → Cursor σ ε β) :
    Cursor σ ε β := fun buffer position =>
  match reader buffer position with
  | .ok (value, stop) => next value buffer stop
  | .error failure => .error failure

instance : Monad (Cursor σ ε) where
  pure := Cursor.pure
  bind := Cursor.bind

/-- Fail without reading. -/
def fail (failure : ε) : Cursor σ ε α := fun _ _ => .error failure

/-- The current position. -/
def position : Cursor σ ε Nat := fun _ position => .ok (position, position)

/-- The buffer being read. -/
def buffer : Cursor σ ε (List σ) := fun buffer position => .ok (buffer, position)

/-- The value a reader returns from `start`, without the position. -/
def value (reader : Cursor σ ε α) (buffer : List σ) (start : Nat) : Except ε α :=
  match reader buffer start with
  | .ok (value, _) => .ok value
  | .error failure => .error failure

theorem value_of_ok {reader : Cursor σ ε α} {buffer : List σ} {start stop : Nat} {found : α}
    (read : reader buffer start = .ok (found, stop)) :
    reader.value buffer start = .ok found := by
  rw [value, read]

theorem value_eq_ok {reader : Cursor σ ε α} {buffer : List σ} {start : Nat} {found : α} :
    reader.value buffer start = .ok found ↔ ∃ stop, reader buffer start = .ok (found, stop) := by
  unfold value
  cases reader buffer start with
  | error failure => simp
  | ok pair => simp [Prod.ext_iff]

@[simp] theorem pure_apply (value : α) (buffer : List σ) (start : Nat) :
    (pure value : Cursor σ ε α) buffer start = .ok (value, start) := rfl

@[simp] theorem position_apply (buffer : List σ) (start : Nat) :
    (position : Cursor σ ε Nat) buffer start = .ok (start, start) := rfl

theorem bind_apply (reader : Cursor σ ε α) (next : α → Cursor σ ε β)
    (buffer : List σ) (start : Nat) :
    (reader >>= next) buffer start =
      match reader buffer start with
      | .ok (value, stop) => next value buffer stop
      | .error failure => .error failure := rfl

/-- A reader that succeeds hands its value and position to the continuation. -/
theorem bind_of_ok {reader : Cursor σ ε α} {next : α → Cursor σ ε β}
    {buffer : List σ} {start stop : Nat} {value : α}
    (read : reader buffer start = .ok (value, stop)) :
    (reader >>= next) buffer start = next value buffer stop := by
  simp only [bind_apply, read]

/-- A reader that fails makes the whole sequence fail. -/
theorem bind_of_error {reader : Cursor σ ε α} {next : α → Cursor σ ε β}
    {buffer : List σ} {start : Nat} {failure : ε}
    (read : reader buffer start = .error failure) :
    (reader >>= next) buffer start = .error failure := by
  simp only [bind_apply, read]

instance : LawfulMonad (Cursor σ ε) := LawfulMonad.mk' _
  (by
    intro α reader
    funext buffer start
    change (reader >>= Pure.pure) buffer start = reader buffer start
    rw [bind_apply]
    cases reader buffer start with
    | error failure => rfl
    | ok found => rfl)
  (fun _ _ => rfl)
  (by
    intro α β γ reader next last
    funext buffer start
    simp only [bind_apply]
    cases reader buffer start with
    | error failure => rfl
    | ok found => rfl)

/-- Inversion of a successful sequence. -/
theorem bind_eq_ok {reader : Cursor σ ε α} {next : α → Cursor σ ε β}
    {buffer : List σ} {start stop : Nat} {result : β} :
    (reader >>= next) buffer start = .ok (result, stop) ↔
      ∃ value middle, reader buffer start = .ok (value, middle) ∧
        next value buffer middle = .ok (result, stop) := by
  rw [bind_apply]
  cases read : reader buffer start with
  | error failure => simp
  | ok found =>
      rcases found with ⟨value, middle⟩
      constructor
      · intro rest
        exact ⟨value, middle, rfl, rest⟩
      · rintro ⟨other, otherMiddle, equal, rest⟩
        cases equal
        exact rest

/-! ## Round trips -/

/-- In every buffer shorter than `limit` that holds `encoding` at the reader's
position, the reader returns `value` and stops directly behind `encoding`. -/
def Decodes (limit : Nat) (reader : Cursor σ ε α) (encoding : List σ)
    (value : α) : Prop :=
  ∀ before after : List σ, (before ++ (encoding ++ after)).length < limit →
    reader (before ++ (encoding ++ after)) before.length =
      .ok (value, before.length + encoding.length)

theorem Decodes.pure (limit : Nat) (value : α) :
    Decodes limit (Pure.pure value : Cursor σ ε α) [] value := by
  intro before after short
  simp

/-- Consecutive fields are read back one after the other. -/
theorem Decodes.bind {limit : Nat} {reader : Cursor σ ε α}
    {next : α → Cursor σ ε β} {first second : List σ} {value : α} {result : β}
    (head : Decodes limit reader first value)
    (tail : Decodes limit (next value) second result) :
    Decodes limit (reader >>= next) (first ++ second) result := by
  intro before after short
  have regroup : before ++ (first ++ second ++ after) =
      before ++ (first ++ (second ++ after)) := by simp
  have shift : before ++ (first ++ (second ++ after)) =
      (before ++ first) ++ (second ++ after) := by simp
  rw [regroup] at short ⊢
  rw [bind_of_ok (head before (second ++ after) short)]
  rw [shift] at short ⊢
  have rest := tail (before ++ first) after short
  rw [List.length_append] at rest
  rw [rest, List.length_append, Nat.add_assoc]

/-- The last field of a record: the continuation only packs the value. -/
theorem Decodes.map {limit : Nat} {reader : Cursor σ ε α} {encoding : List σ}
    {value : α} (pack : α → β) (read : Decodes limit reader encoding value) :
    Decodes limit (reader >>= fun found => Pure.pure (pack found)) encoding
      (pack value) := by
  have both : Decodes limit (reader >>= fun found => Pure.pure (pack found))
      (encoding ++ []) (pack value) :=
    read.bind (Decodes.pure limit (pack value))
  rwa [List.append_nil] at both

/-- A field read from the very start of a buffer. -/
theorem Decodes.from_start {limit : Nat} {reader : Cursor σ ε α}
    {encoding : List σ} {value : α} (read : Decodes limit reader encoding value)
    (after : List σ) (short : (encoding ++ after).length < limit) :
    reader (encoding ++ after) 0 = .ok (value, encoding.length) := by
  have found := read [] after (by simpa using short)
  simpa using found

/-- What lies in front of a reader at `position`. -/
def At (buffer : List σ) (position : Nat) (rest : List σ) : Prop :=
  position ≤ buffer.length ∧ buffer.drop position = rest

theorem At.start (buffer : List σ) : At buffer 0 buffer :=
  ⟨Nat.zero_le _, List.drop_zero⟩

/-- A field in front of the reader is read, and the next one lies in front of it. -/
theorem Decodes.at {limit : Nat} {reader : Cursor σ ε α} {encoding rest buffer : List σ}
    {value : α} {start : Nat} (read : Decodes limit reader encoding value)
    (short : buffer.length < limit) (here : At buffer start (encoding ++ rest)) :
    reader buffer start = .ok (value, start + encoding.length) ∧
      At buffer (start + encoding.length) rest := by
  obtain ⟨inside, drop⟩ := here
  have split : buffer.take start ++ (encoding ++ rest) = buffer := by
    rw [← drop, List.take_append_drop]
  have length : (buffer.take start).length = start := List.length_take_of_le inside
  have found := read (buffer.take start) rest (by rwa [split])
  rw [split, length] at found
  refine ⟨found, ?_, ?_⟩
  · have total := congrArg List.length drop
    rw [List.length_drop, List.length_append] at total
    omega
  · rw [← List.drop_drop, drop, List.drop_left]

/-- The last field of a buffer. -/
theorem Decodes.at_end {limit : Nat} {reader : Cursor σ ε α} {encoding buffer : List σ}
    {value : α} {start : Nat} (read : Decodes limit reader encoding value)
    (short : buffer.length < limit) (here : At buffer start encoding) :
    reader buffer start = .ok (value, start + encoding.length) := by
  rw [← List.append_nil encoding] at here
  exact (read.at short here).1

/-! ## Movement and locality -/

/-- The reader never moves its position backwards. -/
def Forward (limit : Nat) (reader : Cursor σ ε α) : Prop :=
  ∀ ⦃buffer : List σ⦄ ⦃start stop : Nat⦄ ⦃value : α⦄, buffer.length < limit →
    reader buffer start = .ok (value, stop) → start ≤ stop

/-- A successful read that stops at or before `bound`, strictly inside the
buffer, is determined by the symbols before `bound`. -/
def Local (limit : Nat) (reader : Cursor σ ε α) : Prop :=
  ∀ ⦃left right : List σ⦄ ⦃bound start stop : Nat⦄ ⦃value : α⦄,
    left.length < limit → bound < left.length →
    left.take bound = right.take bound → stop ≤ bound →
    reader left start = .ok (value, stop) → reader right start = .ok (value, stop)

theorem Forward.pure (limit : Nat) (value : α) :
    Forward limit (Pure.pure value : Cursor σ ε α) := by
  intro buffer start stop found short read
  simp only [pure_apply, Except.ok.injEq, Prod.mk.injEq] at read
  exact Nat.le_of_eq read.2

theorem Local.pure (limit : Nat) (value : α) :
    Local limit (Pure.pure value : Cursor σ ε α) := by
  intro left right bound start stop found short inside agree before read
  exact read

theorem Forward.bind {limit : Nat} {reader : Cursor σ ε α}
    {next : α → Cursor σ ε β} (head : Forward limit reader)
    (tail : ∀ value, Forward limit (next value)) :
    Forward limit (reader >>= next) := by
  intro buffer start stop result short read
  obtain ⟨value, middle, first, second⟩ := bind_eq_ok.mp read
  exact Nat.le_trans (head short first) (tail value short second)

theorem Local.bind {limit : Nat} {reader : Cursor σ ε α}
    {next : α → Cursor σ ε β} (head : Local limit reader)
    (tailForward : ∀ value, Forward limit (next value))
    (tail : ∀ value, Local limit (next value)) :
    Local limit (reader >>= next) := by
  intro left right bound start stop result short inside agree before read
  obtain ⟨value, middle, first, second⟩ := bind_eq_ok.mp read
  have middleLe : middle ≤ stop := tailForward value short second
  have firstRight := head short inside agree (Nat.le_trans middleLe before) first
  have secondRight := tail value short inside agree before second
  exact bind_eq_ok.mpr ⟨value, middle, firstRight, secondRight⟩

/-- The reader moves forwards and depends only on what it passes. -/
structure Steady (limit : Nat) (reader : Cursor σ ε α) : Prop where
  forward : Forward limit reader
  isLocal : Local limit reader

theorem Steady.pure (limit : Nat) (value : α) :
    Steady limit (Pure.pure value : Cursor σ ε α) :=
  ⟨Forward.pure limit value, Local.pure limit value⟩

theorem Steady.bind {limit : Nat} {reader : Cursor σ ε α}
    {next : α → Cursor σ ε β} (head : Steady limit reader)
    (tail : ∀ value, Steady limit (next value)) :
    Steady limit (reader >>= next) := by
  constructor
  · exact head.forward.bind fun value => (tail value).forward
  · exact head.isLocal.bind (fun value => (tail value).forward) fun value =>
      (tail value).isLocal

/-! ## Repetition -/

/-- Run a reader `count` times. -/
def replicate (reader : Cursor σ ε α) : Nat → Cursor σ ε (List α)
  | 0 => Pure.pure []
  | count + 1 => do
      let value ← reader
      let rest ← reader.replicate count
      return value :: rest

/-- Encodings that stand one behind the other are read one after the other. -/
theorem Decodes.replicate {ι : Type} {limit : Nat} {reader : Cursor σ ε α}
    {encode : ι → List σ} {value : ι → α}
    (each : ∀ item, Decodes limit reader (encode item) (value item)) (items : List ι) :
    Decodes limit (reader.replicate items.length) (items.flatMap encode) (items.map value) := by
  induction items with
  | nil => exact Decodes.pure limit []
  | cons item items ih => exact (each item).bind (ih.map fun rest => value item :: rest)

/-! ## Enough symbols -/

/-- With `count` symbols in front of it the reader succeeds, using no more of them. -/
def Served (limit count : Nat) (reader : Cursor σ ε α) : Prop :=
  ∀ ⦃buffer : List σ⦄ ⦃start : Nat⦄, buffer.length < limit → start + count ≤ buffer.length →
    ∃ value stop, reader buffer start = .ok (value, stop) ∧ stop ≤ start + count

theorem Served.pure (limit count : Nat) (value : α) :
    Served limit count (Pure.pure value : Cursor σ ε α) := by
  intro buffer start _ _
  exact ⟨value, start, rfl, Nat.le_add_right _ _⟩

theorem Served.bind {limit count rest : Nat} {reader : Cursor σ ε α}
    {next : α → Cursor σ ε β} (head : Served limit count reader)
    (tail : ∀ value, Served limit rest (next value)) :
    Served limit (count + rest) (reader >>= next) := by
  intro buffer start short room
  obtain ⟨value, middle, first, middleLe⟩ := @head buffer start short (by omega)
  obtain ⟨result, stop, second, stopLe⟩ := @tail value buffer middle short (by omega)
  exact ⟨result, stop, bind_eq_ok.mpr ⟨value, middle, first, second⟩, by omega⟩

theorem Served.mono {limit count more : Nat} {reader : Cursor σ ε α}
    (served : Served limit count reader) (le : count ≤ more) : Served limit more reader := by
  intro buffer start short room
  obtain ⟨value, stop, read, stopLe⟩ := @served buffer start short (by omega)
  exact ⟨value, stop, read, by omega⟩

/-- The reader takes exactly `count` symbols, and fails in one way when they are not
there. -/
def Fixed (limit count : Nat) (failure : ε) (reader : Cursor σ ε α) : Prop :=
  ∀ ⦃buffer : List σ⦄ ⦃start : Nat⦄, buffer.length < limit →
    (start + count ≤ buffer.length → ∃ value, reader buffer start = .ok (value, start + count)) ∧
    (buffer.length < start + count → reader buffer start = .error failure)

theorem Fixed.bind {limit count rest : Nat} {failure : ε} {reader : Cursor σ ε α}
    {next : α → Cursor σ ε β} (head : Fixed limit count failure reader)
    (tail : ∀ value, Fixed limit rest failure (next value)) :
    Fixed limit (count + rest) failure (reader >>= next) := by
  intro buffer start short
  constructor
  · intro room
    obtain ⟨value, first⟩ := (@head buffer start short).1 (by omega)
    obtain ⟨result, second⟩ := (@tail value buffer (start + count) short).1 (by omega)
    rw [bind_of_ok first, second]
    exact ⟨result, by rw [Nat.add_assoc]⟩
  · intro missing
    by_cases room : start + count ≤ buffer.length
    · obtain ⟨value, first⟩ := (@head buffer start short).1 room
      rw [bind_of_ok first]
      exact (@tail value buffer (start + count) short).2 (by omega)
    · exact bind_of_error ((@head buffer start short).2 (by omega))

theorem Fixed.map {limit count : Nat} {failure : ε} {reader : Cursor σ ε α}
    (fixed : Fixed limit count failure reader) (pack : α → β) :
    Fixed limit count failure (reader >>= fun value => Pure.pure (pack value)) := by
  intro buffer start short
  constructor
  · intro room
    obtain ⟨value, first⟩ := (@fixed buffer start short).1 room
    exact ⟨pack value, bind_of_ok first⟩
  · intro missing
    exact bind_of_error ((@fixed buffer start short).2 missing)

theorem Fixed.served {limit count : Nat} {failure : ε} {reader : Cursor σ ε α}
    (fixed : Fixed limit count failure reader) : Served limit count reader := by
  intro buffer start short room
  obtain ⟨value, read⟩ := (@fixed buffer start short).1 room
  exact ⟨value, start + count, read, Nat.le_refl _⟩

/-- What a successful read says about the buffer. -/
theorem Fixed.room {limit count : Nat} {failure : ε} {reader : Cursor σ ε α}
    (fixed : Fixed limit count failure reader) {buffer : List σ} {start stop : Nat} {value : α}
    (short : buffer.length < limit) (read : reader buffer start = .ok (value, stop)) :
    start + count ≤ buffer.length ∧ stop = start + count := by
  by_cases room : start + count ≤ buffer.length
  · obtain ⟨found, taken⟩ := (@fixed buffer start short).1 room
    cases taken.symm.trans read
    exact ⟨room, rfl⟩
  · have failed := (@fixed buffer start short).2 (by omega)
    cases failed.symm.trans read

/-- The same for readers that are only started inside the buffer; they may take nothing. -/
def Takes (limit count : Nat) (failure : ε) (reader : Cursor σ ε α) : Prop :=
  ∀ ⦃buffer : List σ⦄ ⦃start : Nat⦄, buffer.length < limit → start ≤ buffer.length →
    (start + count ≤ buffer.length → ∃ value, reader buffer start = .ok (value, start + count)) ∧
    (buffer.length < start + count → reader buffer start = .error failure)

theorem Fixed.takes {limit count : Nat} {failure : ε} {reader : Cursor σ ε α}
    (fixed : Fixed limit count failure reader) : Takes limit count failure reader :=
  fun _ _ short _ => fixed short

theorem Takes.pure (limit : Nat) (failure : ε) (value : α) :
    Takes limit 0 failure (Pure.pure value : Cursor σ ε α) := by
  intro buffer start _ inside
  constructor
  · intro _
    exact ⟨value, rfl⟩
  · intro missing
    omega

theorem Takes.bind {limit count rest : Nat} {failure : ε} {reader : Cursor σ ε α}
    {next : α → Cursor σ ε β} (head : Takes limit count failure reader)
    (tail : ∀ value, Takes limit rest failure (next value)) :
    Takes limit (count + rest) failure (reader >>= next) := by
  intro buffer start short inside
  constructor
  · intro room
    obtain ⟨value, first⟩ := (@head buffer start short inside).1 (by omega)
    obtain ⟨result, second⟩ := (@tail value buffer (start + count) short (by omega)).1 (by omega)
    rw [bind_of_ok first, second]
    exact ⟨result, by rw [Nat.add_assoc]⟩
  · intro missing
    by_cases room : start + count ≤ buffer.length
    · obtain ⟨value, first⟩ := (@head buffer start short inside).1 room
      rw [bind_of_ok first]
      exact (@tail value buffer (start + count) short room).2 (by omega)
    · exact bind_of_error ((@head buffer start short inside).2 (by omega))

theorem Takes.map {limit count : Nat} {failure : ε} {reader : Cursor σ ε α}
    (takes : Takes limit count failure reader) (pack : α → β) :
    Takes limit count failure (reader >>= fun value => Pure.pure (pack value)) :=
  takes.bind fun value => Takes.pure limit failure (pack value)

/-! ## Positions -/

/-- Wherever the position stays below `limit`, a read that succeeds moves by `count`. -/
def Moves (limit count : Nat) (reader : Cursor σ ε α) : Prop :=
  ∀ ⦃buffer : List σ⦄ ⦃start stop : Nat⦄ ⦃value : α⦄, start + count < limit →
    reader buffer start = .ok (value, stop) → stop = start + count

theorem Moves.pure (limit : Nat) (value : α) :
    Moves limit 0 (Pure.pure value : Cursor σ ε α) := by
  intro buffer start stop found small read
  cases read
  rfl

theorem Moves.bind {limit count rest : Nat} {reader : Cursor σ ε α}
    {next : α → Cursor σ ε β} (head : Moves limit count reader)
    (tail : ∀ value, Moves limit rest (next value)) :
    Moves limit (count + rest) (reader >>= next) := by
  intro buffer start stop result small read
  obtain ⟨value, middle, first, second⟩ := bind_eq_ok.mp read
  have middleEq := head (by omega) first
  have stopEq := tail value (by omega) second
  omega

theorem Moves.map {limit count : Nat} {reader : Cursor σ ε α}
    (moves : Moves limit count reader) (pack : α → β) :
    Moves limit count (reader >>= fun value => Pure.pure (pack value)) :=
  moves.bind fun value => Moves.pure limit (pack value)

/-! ## Encodings in long buffers -/

/-- The round trip for buffers of any length: only the encoding itself must end below
`limit`. -/
def Passes (limit : Nat) (reader : Cursor σ ε α) (encoding : List σ) (value : α) : Prop :=
  ∀ before after : List σ, before.length + encoding.length < limit →
    reader (before ++ (encoding ++ after)) before.length =
      .ok (value, before.length + encoding.length)

theorem Passes.pure (limit : Nat) (value : α) :
    Passes limit (Pure.pure value : Cursor σ ε α) [] value := by
  intro before after _
  rfl

theorem Passes.bind {limit : Nat} {reader : Cursor σ ε α} {next : α → Cursor σ ε β}
    {first second : List σ} {value : α} {result : β} (head : Passes limit reader first value)
    (tail : Passes limit (next value) second result) :
    Passes limit (reader >>= next) (first ++ second) result := by
  intro before after short
  rw [List.length_append] at short
  have here := head before (second ++ after) (by omega)
  have rest := tail (before ++ first) after (by rw [List.length_append]; omega)
  rw [List.length_append] at rest
  simp only [List.append_assoc] at here rest ⊢
  rw [bind_of_ok here, rest, List.length_append, Nat.add_assoc]

theorem Passes.map {limit : Nat} {reader : Cursor σ ε α} {encoding : List σ} {value : α}
    (pack : α → β) (read : Passes limit reader encoding value) :
    Passes limit (reader >>= fun found => Pure.pure (pack found)) encoding (pack value) := by
  have both : Passes limit (reader >>= fun found => Pure.pure (pack found)) (encoding ++ [])
      (pack value) := read.bind (Passes.pure limit (pack value))
  rwa [List.append_nil] at both

theorem Passes.decodes {limit : Nat} {reader : Cursor σ ε α} {encoding : List σ} {value : α}
    (read : Passes limit reader encoding value) : Decodes limit reader encoding value := by
  intro before after short
  simp only [List.length_append] at short
  exact read before after (by omega)

/-- The same for readers that rely on `passed` symbols in front of them. -/
def PassesBehind (passed limit : Nat) (reader : Cursor σ ε α) (encoding : List σ) (value : α) :
    Prop :=
  ∀ before after : List σ, passed ≤ before.length → before.length + encoding.length < limit →
    reader (before ++ (encoding ++ after)) before.length =
      .ok (value, before.length + encoding.length)

theorem Passes.behind {limit : Nat} {reader : Cursor σ ε α} {encoding : List σ} {value : α}
    (read : Passes limit reader encoding value) (passed : Nat) :
    PassesBehind passed limit reader encoding value :=
  fun before after _ short => read before after short

theorem PassesBehind.passes {limit : Nat} {reader : Cursor σ ε α} {encoding : List σ}
    {value : α} (read : PassesBehind 0 limit reader encoding value) :
    Passes limit reader encoding value :=
  fun before after short => read before after (Nat.zero_le _) short

theorem PassesBehind.mono {passed more limit : Nat} {reader : Cursor σ ε α} {encoding : List σ}
    {value : α} (read : PassesBehind passed limit reader encoding value)
    (le : passed ≤ more) : PassesBehind more limit reader encoding value :=
  fun before after behind short => read before after (Nat.le_trans le behind) short

theorem PassesBehind.bind {passed limit : Nat} {reader : Cursor σ ε α}
    {next : α → Cursor σ ε β} {first second : List σ} {value : α} {result : β}
    (head : PassesBehind passed limit reader first value)
    (tail : PassesBehind (passed + first.length) limit (next value) second result) :
    PassesBehind passed limit (reader >>= next) (first ++ second) result := by
  intro before after behind short
  rw [List.length_append] at short
  have here := head before (second ++ after) behind (by omega)
  have rest := tail (before ++ first) after (by rw [List.length_append]; omega)
    (by rw [List.length_append]; omega)
  rw [List.length_append] at rest
  simp only [List.append_assoc] at here rest ⊢
  rw [bind_of_ok here, rest, List.length_append, Nat.add_assoc]

/-- An encoding at the start of a buffer. -/
theorem Passes.from_start {limit : Nat} {reader : Cursor σ ε α} {encoding : List σ} {value : α}
    (read : Passes limit reader encoding value) (short : encoding.length < limit)
    (after : List σ) : reader (encoding ++ after) 0 = .ok (value, encoding.length) := by
  have found := read [] after (by simpa using short)
  simpa using found

end Cursor

end Foundation

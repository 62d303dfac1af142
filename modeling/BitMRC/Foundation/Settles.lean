import BitMRC.Foundation.Cursor

/-!
# Computations that settle

`Settles condition allowed attempt` says exactly when a computation that may fail
returns, and how it fails otherwise.  Sequences, branches and cursor readers settle
when their parts do.
-/

namespace Foundation

variable {σ ε α β : Type} {allowed : ε → Prop}

/-- Whatever failure the attempt ends with is allowed. -/
def Fails (allowed : ε → Prop) (attempt : Except ε α) : Prop :=
  ∀ failure, attempt = .error failure → allowed failure

/-- Under the condition the attempt returns; otherwise it fails, in an allowed way. -/
structure Settles (condition : Prop) (allowed : ε → Prop) (attempt : Except ε α) : Prop where
  returns : condition → ∃ value, attempt = .ok value
  fails : ¬condition → ∃ failure, attempt = .error failure ∧ allowed failure

/-! ## Failures -/

namespace Fails

theorem ok (value : α) : Fails allowed (.ok value) := nofun

theorem error {failure : ε} (fine : allowed failure) :
    Fails allowed (.error failure : Except ε α) := by
  intro found failed
  cases failed
  exact fine

theorem bind {attempt : Except ε α} {next : α → Except ε β} (head : Fails allowed attempt)
    (tail : ∀ value, attempt = .ok value → Fails allowed (next value)) :
    Fails allowed (attempt >>= next) := by
  cases attempt with
  | error failure => exact error (head failure rfl)
  | ok value => exact tail value rfl

theorem mono {other : ε → Prop} {attempt : Except ε α} (fails : Fails allowed attempt)
    (weaker : ∀ failure, allowed failure → other failure) : Fails other attempt :=
  fun failure failed => weaker failure (fails failure failed)

end Fails

namespace Settles

variable {condition : Prop} {attempt : Except ε α}

theorem returns_iff (settles : Settles condition allowed attempt) :
    (∃ value, attempt = .ok value) ↔ condition := by
  constructor
  · rintro ⟨value, returned⟩
    by_contra unmet
    obtain ⟨failure, failed, _⟩ := settles.fails unmet
    cases returned.symm.trans failed
  · exact settles.returns

theorem fails_allowed (settles : Settles condition allowed attempt) : Fails allowed attempt := by
  intro failure failed
  by_cases met : condition
  · obtain ⟨value, returned⟩ := settles.returns met
    cases returned.symm.trans failed
  · obtain ⟨found, failed', fine⟩ := settles.fails met
    cases failed'.symm.trans failed
    exact fine

theorem of_iff (returns : (∃ value, attempt = .ok value) ↔ condition)
    (fails : Fails allowed attempt) : Settles condition allowed attempt := by
  constructor
  · exact returns.mpr
  · intro unmet
    cases attempt with
    | error failure => exact ⟨failure, rfl, fails failure rfl⟩
    | ok value => exact absurd (returns.mp ⟨value, rfl⟩) unmet

theorem ok (value : α) : Settles True allowed (.ok value) :=
  ⟨fun _ => ⟨value, rfl⟩, fun unmet => absurd trivial unmet⟩

theorem error {failure : ε} (fine : allowed failure) :
    Settles False allowed (.error failure : Except ε α) :=
  ⟨False.elim, fun _ => ⟨failure, rfl, fine⟩⟩

theorem congr {other : Prop} (settles : Settles condition allowed attempt)
    (same : condition ↔ other) : Settles other allowed attempt :=
  of_iff (settles.returns_iff.trans same) settles.fails_allowed

theorem mono {other : ε → Prop} (settles : Settles condition allowed attempt)
    (weaker : ∀ failure, allowed failure → other failure) : Settles condition other attempt :=
  of_iff settles.returns_iff (settles.fails_allowed.mono weaker)

/-- A sequence returns when its first part does and its rest does behind that. -/
theorem bind {next : α → Except ε β} {rest : α → Prop}
    (head : Settles condition allowed attempt)
    (tail : ∀ value, attempt = .ok value → Settles (rest value) allowed (next value)) :
    Settles (condition ∧ ∀ value, attempt = .ok value → rest value) allowed
      (attempt >>= next) := by
  cases attempt with
  | error failure =>
      constructor
      · rintro ⟨met, _⟩
        obtain ⟨value, returned⟩ := head.returns met
        cases returned
      · intro _
        exact ⟨failure, rfl, head.fails_allowed failure rfl⟩
  | ok value =>
      refine (tail value rfl).congr ?_
      constructor
      · intro met
        refine ⟨head.returns_iff.mp ⟨value, rfl⟩, ?_⟩
        rintro found returned
        cases returned
        exact met
      · intro met
        exact met.2 value rfl

/-- The rest settles alike behind every value. -/
theorem bind_const {next : α → Except ε β} {rest : Prop}
    (head : Settles condition allowed attempt)
    (tail : ∀ value, attempt = .ok value → Settles rest allowed (next value)) :
    Settles (condition ∧ rest) allowed (attempt >>= next) := by
  refine (head.bind tail).congr ⟨?_, fun met => ⟨met.1, fun _ _ => met.2⟩⟩
  rintro ⟨met, others⟩
  obtain ⟨value, returned⟩ := head.returns met
  exact ⟨met, others value returned⟩

/-- What follows always returns. -/
theorem bind_ok {next : α → Except ε β} (settles : Settles condition allowed attempt)
    (tail : ∀ value, attempt = .ok value → ∃ result, next value = .ok result) :
    Settles condition allowed (attempt >>= next) := by
  refine (settles.bind_const fun value returned => ?_).congr (and_iff_left trivial)
  obtain ⟨result, returned⟩ := tail value returned
  rw [returned]
  exact ok result

/-- What follows only repacks the value. -/
theorem map (settles : Settles condition allowed attempt) (pack : α → β) :
    Settles condition allowed (attempt >>= fun value => pure (pack value)) :=
  settles.bind_ok fun value _ => ⟨pack value, rfl⟩

/-- A branch settles as the side that is taken. -/
theorem ite {test left right : Prop} [Decidable test] {attempt other : Except ε α}
    (yes : test → Settles left allowed attempt) (no : ¬test → Settles right allowed other) :
    Settles (if test then left else right) allowed (if test then attempt else other) := by
  split
  next chosen => exact yes chosen
  next rejected => exact no rejected

end Settles

/-! ## Readers -/

namespace Cursor

/-- Whatever failure the reader ends with is allowed, from any position. -/
def Fails (allowed : ε → Prop) (reader : Cursor σ ε α) : Prop :=
  ∀ buffer start, Foundation.Fails allowed (reader buffer start)

namespace Fails

theorem pure (value : α) : Fails allowed (Pure.pure value : Cursor σ ε α) :=
  fun _ start => .ok (value, start)

theorem position : Fails allowed (Cursor.position : Cursor σ ε Nat) :=
  fun _ start => .ok (start, start)

theorem bind {reader : Cursor σ ε α} {next : α → Cursor σ ε β} (head : Fails allowed reader)
    (tail : ∀ value, Fails allowed (next value)) : Fails allowed (reader >>= next) := by
  intro buffer start
  have sequence : (reader >>= next) buffer start =
      reader buffer start >>= fun found => next found.1 buffer found.2 := by
    rw [bind_apply]
    cases reader buffer start <;> rfl
  rw [sequence]
  exact (head buffer start).bind fun found _ => tail found.1 buffer found.2

theorem ite {test : Prop} [Decidable test] {left right : Cursor σ ε α}
    (yes : Fails allowed left) (no : Fails allowed right) :
    Fails allowed (if test then left else right) := by
  split
  next => exact yes
  next => exact no

theorem value {reader : Cursor σ ε α} (fails : Fails allowed reader) (buffer : List σ)
    (start : Nat) : Foundation.Fails allowed (reader.value buffer start) := by
  intro failure failed
  rw [Cursor.value] at failed
  cases read : reader buffer start with
  | ok found =>
      rw [read] at failed
      cases failed
  | error found =>
      rw [read] at failed
      cases failed
      exact fails buffer start _ read

end Fails

theorem value_settles {condition : Prop} {reader : Cursor σ ε α} {buffer : List σ} {start : Nat}
    (settles : Settles condition allowed (reader buffer start)) :
    Settles condition allowed (reader.value buffer start) := by
  constructor
  · intro met
    obtain ⟨⟨value, stop⟩, read⟩ := settles.returns met
    exact ⟨value, value_of_ok read⟩
  · intro unmet
    obtain ⟨failure, unread, fine⟩ := settles.fails unmet
    exact ⟨failure, by rw [value, unread], fine⟩

/-- A reader whose failures are allowed, and what follows it. -/
theorem bind_settles {reader : Cursor σ ε α} {next : α → Cursor σ ε β} {buffer : List σ}
    {start : Nat} {rest : α → Nat → Prop} (fails : Fails allowed reader)
    (tail : ∀ value stop, reader buffer start = .ok (value, stop) →
      Settles (rest value stop) allowed (next value buffer stop)) :
    Settles (∃ value stop, reader buffer start = .ok (value, stop) ∧ rest value stop) allowed
      ((reader >>= next) buffer start) := by
  cases read : reader buffer start with
  | ok found =>
      rw [bind_of_ok read]
      refine (tail found.1 found.2 read).congr ?_
      constructor
      · intro met
        exact ⟨found.1, found.2, rfl, met⟩
      · rintro ⟨value, stop, same, met⟩
        cases same
        exact met
  | error failure =>
      rw [bind_of_error read]
      refine (Settles.error (fails buffer start failure read)).congr ?_
      simp

/-- A reader of a fixed number of symbols, and what follows it. -/
theorem Takes.bind_settles {limit count : Nat} {failure : ε} {reader : Cursor σ ε α}
    {next : α → Cursor σ ε β} {buffer : List σ} {start : Nat} {rest : Prop}
    (takes : Takes limit count failure reader) (fine : allowed failure)
    (short : buffer.length < limit) (inside : start ≤ buffer.length)
    (tail : start + count ≤ buffer.length →
      ∀ value, Settles rest allowed (next value buffer (start + count))) :
    Settles (start + count ≤ buffer.length ∧ rest) allowed
      ((reader >>= next) buffer start) := by
  by_cases room : start + count ≤ buffer.length
  · obtain ⟨value, read⟩ := (@takes buffer start short inside).1 room
    rw [bind_of_ok read]
    exact (tail room value).congr (by simp [room])
  · rw [bind_of_error ((@takes buffer start short inside).2 (Nat.lt_of_not_le room))]
    exact (Settles.error fine).congr (by simp [room])

end Cursor

end Foundation

import BitMRC.Foundation.Cursor

/-!
# Readers that call for their symbols

A cursor reader sees its whole buffer at once.  A `Calls` reader asks for symbols, and
each call hands out as many of them as it likes.  `Follows` says that such a reader ends,
with the value and at the position that a cursor reader returns, however the symbols are
handed out.
-/

namespace Foundation

variable {σ ε α β : Type}

/-- Readers by calls.  They take a bound on the rounds of each loop, the buffer, the
position and the number of the next call; there is no result when a loop reaches its
bound. -/
def Calls (σ ε α : Type) : Type :=
  Nat → List σ → Nat → Nat → Option (Except ε (α × Nat × Nat))

namespace Calls

protected def pure (value : α) : Calls σ ε α :=
  fun _ _ position call => some (.ok (value, position, call))

/-- Continue at the position and with the call that the first part stopped at. -/
protected def bind (reader : Calls σ ε α) (next : α → Calls σ ε β) : Calls σ ε β :=
  fun rounds buffer position call =>
    match reader rounds buffer position call with
    | none => none
    | some (.error failure) => some (.error failure)
    | some (.ok (value, stop, call)) => next value rounds buffer stop call

instance : Monad (Calls σ ε) where
  pure := Calls.pure
  bind := Calls.bind

/-- Fail without a call. -/
def fail (failure : ε) : Calls σ ε α := fun _ _ _ _ => some (.error failure)

/-- A loop that has reached its bound. -/
def pending : Calls σ ε α := fun _ _ _ _ => none

@[simp] theorem pure_apply (value : α) (rounds : Nat) (buffer : List σ) (position call : Nat) :
    (pure value : Calls σ ε α) rounds buffer position call =
      some (.ok (value, position, call)) := rfl

theorem bind_of_ok {reader : Calls σ ε α} {next : α → Calls σ ε β} {rounds : Nat}
    {buffer : List σ} {position call stop call' : Nat} {value : α}
    (read : reader rounds buffer position call = some (.ok (value, stop, call'))) :
    (reader >>= next) rounds buffer position call = next value rounds buffer stop call' := by
  change Calls.bind reader next rounds buffer position call = _
  rw [Calls.bind, read]

/-! ## Following a cursor reader -/

/-- Where the cursor reader returns, enough rounds return the same. -/
def Follows (calls : Calls σ ε α) (reader : Cursor σ ε α) : Prop :=
  ∀ (buffer : List σ) (start call stop : Nat) (value : α),
    reader buffer start = .ok (value, stop) →
    ∃ least call', ∀ rounds ≥ least,
      calls rounds buffer start call = some (.ok (value, stop, call'))

namespace Follows

theorem pure (value : α) :
    Follows (Pure.pure value : Calls σ ε α) (Pure.pure value : Cursor σ ε α) := by
  intro buffer start call stop found read
  cases read
  exact ⟨0, call, fun _ _ => rfl⟩

/-- Sequences follow sequences. -/
theorem bind {calls : Calls σ ε α} {next : α → Calls σ ε β} {reader : Cursor σ ε α}
    {continue' : α → Cursor σ ε β} (head : Follows calls reader)
    (tail : ∀ value, Follows (next value) (continue' value)) :
    Follows (calls >>= next) (reader >>= continue') := by
  intro buffer start call stop result read
  obtain ⟨value, middle, first, second⟩ := Cursor.bind_eq_ok.mp read
  obtain ⟨least, call', follows⟩ := head buffer start call middle value first
  obtain ⟨least', call'', follows'⟩ := tail value buffer middle call' stop result second
  refine ⟨max least least', call'', fun rounds enough => ?_⟩
  rw [bind_of_ok (follows rounds (Nat.le_trans (Nat.le_max_left _ _) enough))]
  exact follows' rounds (Nat.le_trans (Nat.le_max_right _ _) enough)

end Follows

end Calls

end Foundation

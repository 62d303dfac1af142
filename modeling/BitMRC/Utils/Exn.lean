/-!
# What leaves a function by `throw`

The program throws `int` codes, `std::runtime_error` and, through the standard
library and Crypto++, a few other exceptions.  A computation that may throw is
an `Except Exn`.  Runs that leave the defined behaviour of C++, or a loop never, are kept
apart in `Exn.undefined`, which no handler catches.
-/

namespace BitMRC

/-- Values thrown by the program and by the code it calls. -/
inductive Exn where
  /-- `throw n` with an `int`. -/
  | code (value : Int)
  /-- `std::runtime_error`. -/
  | runtimeError (what : String)
  /-- `std::out_of_range`, thrown by `basic_string::substr`. -/
  | outOfRange
  /-- `std::bad_array_new_length`, thrown by `new T[n]` with a negative `n`. -/
  | badArrayNewLength
  /-- `CryptoPP::BERDecodeErr`. -/
  | berDecodeErr
  /-- The run has no defined behaviour, or is caught in a loop; not an exception. -/
  | undefined
  deriving DecidableEq, Repr

/-- `CONNECTION_CLOSED`. -/
def connectionClosed : Exn := .code 1

/-- `CONNECTION_ERROR`. -/
def connectionError : Exn := .code 2

/-- An exception that is no `int`, so that only `catch (...)` stops it. -/
def Exn.Ordinary : Exn → Prop
  | .code _ => False
  | .undefined => False
  | _ => True

/-- Nothing that `catch (int e)` stops. -/
def Exn.NoInt (failure : Exn) : Prop := ∀ value, failure ≠ .code value

theorem Exn.Ordinary.noInt {failure : Exn} (ordinary : failure.Ordinary) : failure.NoInt := by
  rintro value rfl
  exact ordinary

/-- `try { … } catch (...) { … }`. -/
def tryCatchAll {α : Type} (attempt handler : Except Exn α) : Except Exn α :=
  match attempt with
  | .ok value => .ok value
  | .error .undefined => .error .undefined
  | .error _ => handler

@[simp] theorem tryCatchAll_ok {α : Type} (value : α) (handler : Except Exn α) :
    tryCatchAll (.ok value) handler = .ok value := rfl

/-- Inversion of a successful sequence. -/
theorem bind_eq_ok {α β : Type} {attempt : Except Exn α} {next : α → Except Exn β} {result : β} :
    (attempt >>= next) = .ok result ↔ ∃ value, attempt = .ok value ∧ next value = .ok result := by
  cases attempt with
  | error failure => simp [bind, Except.bind]
  | ok value => simp [bind, Except.bind]

/-- A guarded computation that returns did so itself or through its handler. -/
theorem tryCatchAll_eq_ok {α : Type} {attempt handler : Except Exn α} {result : α}
    (returned : tryCatchAll attempt handler = .ok result) :
    attempt = .ok result ∨ handler = .ok result := by
  unfold tryCatchAll at returned
  split at returned
  next => exact .inl returned
  next => cases returned
  next => exact .inr returned

end BitMRC

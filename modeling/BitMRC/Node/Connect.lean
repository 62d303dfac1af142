import BitMRC.Node.Connection

/-!
# Connecting to a peer

`NodeConnection::Connect` resolves a name and tries the addresses it stands for one after
the other.  The state of the connection is both the result of an attempt and what the loop
looks at to see whether `Close` was called meanwhile.
-/

namespace BitMRC

variable {α : Type}

/-- One entry of the list that `getaddrinfo` returns, and what `socket` and `connect` make
of it. -/
structure AddrInfo (α : Type) where
  addr : α
  /-- `socket` does not return `INVALID_SOCKET`. -/
  created : Bool
  /-- `connect` does not return `SOCKET_ERROR`. -/
  accepts : Bool
  deriving DecidableEq

/-- The members of `NodeConnection` that `Connect` works on, with the address that
`Socket` was made for, and the addresses that were passed to `connect`. -/
structure Dialer (α : Type) where
  state : Int32
  /-- `none` is `INVALID_SOCKET`. -/
  socket : Option α
  tried : List α
  deriving DecidableEq

namespace Dialer

/-- The constructors of `NodeConnection`. -/
def new : Dialer α where
  state := 0
  socket := none
  tried := []

/-- The loop over the addresses; `false` is a `return false` inside of it. -/
def attempt (self : Dialer α) : List (AddrInfo α) → Bool × Dialer α
  | [] => (true, self)
  | ptr :: rest =>
      if !ptr.created then
        (false, { self with socket := none, state := 0 })
      else
        let self := { self with socket := some ptr.addr }
        if self.state = 0 then
          (false, self)
        else
          let self := { self with tried := self.tried ++ [ptr.addr] }
          if !ptr.accepts then
            { self with state := 0, socket := none }.attempt rest
          else
            (true, self)

/-- `Connect` up to the thread that sends: whether it goes on to the version packet.
`none` is a failure of `getaddrinfo`. -/
def connect (self : Dialer α) (result : Option (List (AddrInfo α))) : Bool × Dialer α :=
  let self := { self with state := 3 }
  match result with
  | none => (false, { self with state := 0 })
  | some result =>
      let (finished, self) := self.attempt result
      if !finished then
        (false, self)
      else if self.socket.isNone then
        (false, { self with state := 0 })
      else
        (true, { self with state := 1 })

/-- The addresses up to the first that accepts. -/
def upToFirst : List (AddrInfo α) → List α
  | [] => []
  | ptr :: rest => ptr.addr :: if ptr.accepts then [] else upToFirst rest

/-- What falling back from one address to the next leads to. -/
structure FallsBack (result : List (AddrInfo α)) (before after : Dialer α) : Prop where
  tried : after.tried = before.tried ++ upToFirst result
  connected_iff : after.state = 1 ↔ ∃ ptr ∈ result, ptr.accepts = true
  failed : (∀ ptr ∈ result, ptr.accepts = false) →
    after.state = 0 ∧ after.tried = before.tried ++ result.map AddrInfo.addr

/-! ## The runs of `connect`, by the first address -/

section Runs

variable (self : Dialer α) {ptr next : AddrInfo α}

/-- The first round, which finds the state that `Connect` set. -/
theorem attempt_cons (created : ptr.created = true) (rest : List (AddrInfo α)) :
    { self with state := 3 }.attempt (ptr :: rest) =
      if ptr.accepts then
        (true, ⟨3, some ptr.addr, self.tried ++ [ptr.addr]⟩)
      else
        (⟨0, none, self.tried ++ [ptr.addr]⟩ : Dialer α).attempt rest := by
  have busy : ¬((3 : Int32) = 0) := by decide
  rw [attempt]
  simp only [created, busy, Bool.not_true, Bool.false_eq_true, if_false]
  cases ptr.accepts <;> rfl

theorem connect_of_accepts (created : ptr.created = true) (accepts : ptr.accepts = true)
    (rest : List (AddrInfo α)) : self.connect (some (ptr :: rest)) =
      (true, ⟨1, some ptr.addr, self.tried ++ [ptr.addr]⟩) := by
  have step := self.attempt_cons created rest
  rw [if_pos accepts] at step
  simp only [connect, step]
  rfl

theorem connect_of_single (created : ptr.created = true) (refuses : ptr.accepts = false) :
    self.connect (some [ptr]) = (false, ⟨0, none, self.tried ++ [ptr.addr]⟩) := by
  have step := self.attempt_cons created []
  rw [refuses] at step
  simp only [connect, step]
  rfl

/-- A socket is made for the second address, and then the loop takes the state that the
failure of the first left behind for a call of `Close`. -/
theorem connect_of_refuses (created : ptr.created = true) (refuses : ptr.accepts = false)
    (nextCreated : next.created = true) (rest : List (AddrInfo α)) :
    self.connect (some (ptr :: next :: rest)) =
      (false, ⟨0, some next.addr, self.tried ++ [ptr.addr]⟩) := by
  have step := self.attempt_cons created (next :: rest)
  rw [refuses] at step
  have stop : (⟨0, none, self.tried ++ [ptr.addr]⟩ : Dialer α).attempt (next :: rest) =
      (false, ⟨0, some next.addr, self.tried ++ [ptr.addr]⟩) := by
    rw [attempt]
    simp [nextCreated]
  simp only [Bool.false_eq_true, if_false, stop] at step
  simp only [connect, step]
  rfl

end Runs

/-- No address stands behind the first one, or the first one accepts; without an address no
socket is left from an earlier call. -/
def FirstDecides (self : Dialer α) : List (AddrInfo α) → Prop
  | [] => self.socket = none
  | ptr :: rest => ptr.accepts = true ∨ rest = []

/-- When `Connect` falls back as intended. -/
theorem connect_fallsBack_iff (self : Dialer α) (result : List (AddrInfo α))
    (created : ∀ ptr ∈ result, ptr.created = true) :
    FallsBack result self (self.connect (some result)).2 ↔ self.FirstDecides result := by
  cases result with
  | nil =>
      cases socket : self.socket with
      | none =>
          refine iff_of_true ?_ socket
          constructor <;> simp [connect, attempt, socket, upToFirst]
      | some addr =>
          refine iff_of_false (fun falls => ?_) (by simp [FirstDecides, socket])
          have one : (self.connect (some [])).2.state = 1 := by simp [connect, attempt, socket]
          obtain ⟨_, none, _⟩ := falls.connected_iff.mp one
          cases none
  | cons ptr rest =>
      have first := created ptr List.mem_cons_self
      cases accepts : ptr.accepts with
      | true =>
          refine iff_of_true ?_ (.inl accepts)
          rw [self.connect_of_accepts first accepts]
          constructor <;> simp [upToFirst, accepts]
      | false =>
          cases rest with
          | nil =>
              refine iff_of_true ?_ (.inr rfl)
              rw [self.connect_of_single first accepts]
              constructor <;> simp [upToFirst, accepts]
          | cons next rest =>
              have second := created next (List.mem_cons_of_mem _ List.mem_cons_self)
              refine iff_of_false (fun falls => ?_) (by simp [FirstDecides, accepts])
              -- the second address belongs to those that are to be tried
              have tried := falls.tried
              rw [self.connect_of_refuses first accepts second] at tried
              simp [upToFirst, accepts] at tried

theorem connect_fallsBack_iff_sample :
    FallsBack [⟨1, true, true⟩, ⟨2, true, false⟩] new
      ((new : Dialer Nat).connect (some [⟨1, true, true⟩, ⟨2, true, false⟩])).2 :=
  (connect_fallsBack_iff new _ (by decide)).mpr (.inl rfl)

/-- The first address refuses and the second one would accept. -/
theorem not_connect_fallsBack : ¬FallsBack [⟨1, true, false⟩, ⟨2, true, true⟩] new
    ((new : Dialer Nat).connect (some [⟨1, true, false⟩, ⟨2, true, true⟩])).2 := by
  intro falls
  exact absurd falls.tried (by decide)

end Dialer

end BitMRC

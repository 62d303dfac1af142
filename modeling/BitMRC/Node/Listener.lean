import BitMRC.Node.Announcement
import BitMRC.Node.Handled

/-!
# What ends the listener

`Listener` runs as the body of a thread and stops nothing but `int` codes, so that every
other exception ends the process.  A round of its loop is contained when it returns or
throws one of the two codes for the end of the connection.
-/

namespace BitMRC

open Foundation UString

variable {platform : Platform}

/-! ## Outcomes -/

/-- With any fuel, or with any but none at all, the handler comes to this outcome. -/
def HasOutcome {α : Type} (handler : Nat → Except Exn (Option α))
    (outcome : Except Exn (Option α)) : Prop :=
  ∀ fuel, handler fuel = outcome ∨ fuel = 0 ∧ handler fuel = .ok none

/-- Under the condition a handler returns; otherwise it throws no `int`, or never ends. -/
structure Ends {α : Type} (condition : Prop) (handler : Nat → Except Exn (Option α)) : Prop where
  returns : condition → ∃ after, HasOutcome handler (.ok (some after))
  fails : ¬condition → HasOutcome handler (.ok none) ∨
    ∃ failure : Exn, failure.NoInt ∧ HasOutcome handler (.error failure)

namespace Ends

variable {α β : Type} {condition : Prop}

theorem ite {test left right : Prop} [Decidable test] {handler other : Nat → Except Exn (Option α)}
    (yes : test → Ends left handler) (no : ¬test → Ends right other) :
    Ends (if test then left else right) fun fuel =>
      if test then handler fuel else other fuel := by
  split
  next chosen => exact yes chosen
  next rejected => exact no rejected

end Ends

/-- It ends, and by no exception but the two codes that `Listener` expects. -/
def Contained {α : Type} (result : Nat → Except Exn (Option α)) : Prop :=
  (∃ fuel, result fuel ≠ .ok none) ∧
    ∀ fuel failure, result fuel = .error failure →
      failure = connectionClosed ∨ failure = connectionError

/-- An outcome that lets the thread go on or end in order. -/
def InOrder {α : Type} (outcome : Except Exn (Option α)) : Prop :=
  outcome ≠ .ok none ∧
    ∀ failure, outcome = .error failure → failure = connectionClosed ∨ failure = connectionError

/-- What is done with the result does not change how a handler comes to it. -/
theorem HasOutcome.map {α β : Type} {handler : Nat → Except Exn (Option α)}
    {outcome : Except Exn (Option α)} (reaches : HasOutcome handler outcome) (pack : α → β) :
    HasOutcome (fun fuel => handler fuel >>= fun after => pure (after.map pack))
      (outcome >>= fun after => pure (after.map pack)) := by
  intro fuel
  beta_reduce
  rcases reaches fuel with same | ⟨zero, running⟩
  · rw [same]
    exact .inl rfl
  · rw [running]
    exact .inr ⟨zero, rfl⟩

/-! ## Receiving a packet -/

theorem Packet.checksum_length (checksum0 checksum1 checksum2 checksum3 : UInt8) :
    [checksum0, checksum1, checksum2, checksum3].length = 4 := rfl

/-- The fields in front of the payload: the length, and what becomes of the payload. -/
def Packet.readHeader (cut : Exn) (ending : Ending) :
    SocketReader (Int32 × (UString → Packet)) := do
  let magic ← SocketUString.getInt32 ending
  let command ← SocketUString.recvUstring cut 12
  let length ← SocketUString.getInt32 ending
  let checksum0 ← SocketUString.getInt8 ending
  let checksum1 ← SocketUString.getInt8 ending
  let checksum2 ← SocketUString.getInt8 ending
  let checksum3 ← SocketUString.getInt8 ending
  return (length, fun messagePayload => {
    magic := magic.toUInt32
    command := strncpy command 12
    length := length.toUInt32
    checksum := ⟨[checksum0, checksum1, checksum2, checksum3], checksum_length _ _ _ _⟩
    messagePayload })

theorem Packet.receive_eq (cut : Exn) (ending : Ending) : receive cut ending =
    (readHeader cut ending >>= fun header =>
      SocketUString.recvUstring cut header.1.toInt >>= fun messagePayload =>
        pure (header.2 messagePayload)) := by
  simp only [receive, readHeader, bind_assoc, pure_bind]

namespace Node

variable {draws : Draws platform} {uninit : Uninit} {self : Node} {conn : Connection}

end Node

/-! ## The loop -/

/-- What a round of the loop finds: the node as the other threads left it, the clock and
the random numbers, and memory that is not initialised. -/
structure Round (platform : Platform) where
  self : Node
  draws : Draws platform
  uninit : Uninit
  memory : PacketVersion
  /-- An earlier call of the thread has left `EAGAIN` or `EWOULDBLOCK` in `errno`. -/
  again : Bool

/-- One packet is received and handled; `none` while its handler is still running. -/
def Round.listen (round : Round platform) (ending : Ending) (received : UString) (fuel : Nat)
    (conn : Connection) (start : Nat) : Except Exn (Option ((Node × Connection) × Nat)) := do
  let (packet, stop) ← Packet.receive (ending.cut round.again) ending received start
  let after ← round.self.handlePacket round.draws round.uninit round.memory fuel conn packet
  return after.map fun after => (after, stop)

/-- The loop of `Listener`, round after round. -/
def listener (ending : Ending) (received : UString) (fuel : Nat) :
    List (Round platform) → Connection → Nat → Except Exn (Option (Connection × Nat))
  | [], conn, start => .ok (some (conn, start))
  | round :: rounds, conn, start => do
      match ← round.listen ending received fuel conn start with
      | none => return none
      | some ((_, conn), stop) => listener ending received fuel rounds conn stop

/-- A round on a new node. -/
def Round.sample : Round Platform.sample where
  self := Node.new
  draws := Draws.sample
  uninit := ⟨0, 0, 0, 0⟩
  memory := Node.sampleVersion
  again := false

end BitMRC

import BitMRC.Foundation.Calls
import BitMRC.Utils.SocketUString

/-!
# Sockets, one call at a time

`send` may take fewer bytes than it is offered, and `recv` may return fewer than it is
asked for.  The loop of the readers counts what was received.  The loop of the writers
keeps only the last result of `send`, and so does not come back from a short one.
-/

namespace BitMRC

open Foundation

namespace SocketCalls

/-! ## Writers -/

/-- What `send` returns, by the number of the call and the bytes offered;
`SOCKET_ERROR` is -1. -/
abbrev Send := Nat → Nat → Int

/-- Every call takes at least one byte and not more than it is offered. -/
def Send.Progresses (send : Send) : Prop :=
  ∀ call offered, 0 < offered → 1 ≤ send call offered ∧ send call offered ≤ offered

/-- The loop of the writers: `while (iResult < len)`.  There is no result while it
still runs. -/
def sendLoop (send : Send) (str : UString) (len : Int) :
    Nat → Nat → Int → UString → Option (Except Exn UString)
  | 0, _, _, _ => none
  | rounds + 1, call, iResult, out =>
      if iResult < len then
        let result := send call (len - iResult).toNat
        if result = -1 then
          some (.error connectionError)
        else
          sendLoop send str len rounds (call + 1) result
            (out ++ (str.drop iResult.toNat).take result.toNat)
      else
        some (.ok out)

/-- The body that the two writers have in common. -/
def sendBytes (send : Send) (call rounds : Nat) (out str : UString) (len : Int) :
    Option (Except Exn UString) :=
  -- the comparison is one of unsigned numbers
  if str.length < (len % 2 ^ 32).toNat then
    some (.error (.runtimeError "Not enough bytes"))
  else
    sendLoop send str len rounds call 0 out

/-- `sendString(str, len)`. -/
def sendString (send : Send) (call rounds : Nat) (out str : UString) (len : Int) :
    Option (Except Exn UString) := sendBytes send call rounds out str len

/-- `sendUstring(str, len)`. -/
def sendUstring (send : Send) (call rounds : Nat) (out str : UString) (len : Int) :
    Option (Except Exn UString) := sendBytes send call rounds out str len

/-- The writer ends, and what was handed over is the first `len` bytes. -/
def Completes (writer : Nat → UString → UString → Int → Option (Except Exn UString))
    (str : UString) (len : Int) : Prop :=
  ∀ out, ∃ rounds, writer rounds out str len = some (.ok (out ++ str.take len.toNat))

section Send

variable {send : Send} {str : UString} {len : Int}

/-- Behind a short `send` every further one is offered less than the whole, so that no
result ever reaches `len`. -/
theorem sendLoop_short (progresses : send.Progresses) {iResult : Int} (positive : 0 < iResult)
    (short : iResult < len) (rounds call : Nat) (out : UString) :
    sendLoop send str len rounds call iResult out = none := by
  induction rounds generalizing call iResult out with
  | zero => rfl
  | succ rounds ih =>
      obtain ⟨some, fits⟩ := progresses call (len - iResult).toNat (by omega)
      have taken : ¬send call (len - iResult).toNat = -1 := by omega
      rw [sendLoop, if_pos short]
      simp only [if_neg taken]
      exact ih (by omega) (by omega) (call + 1) _

/-- One round of the loop of the writers, for bytes that are to be sent. -/
theorem sendLoop_first (progresses : send.Progresses) (positive : 0 < len) (rounds call : Nat)
    (out : UString) :
    sendLoop send str len (rounds + 1) call 0 out =
      sendLoop send str len rounds (call + 1) (send call len.toNat)
        (out ++ str.take (send call len.toNat).toNat) := by
  obtain ⟨some, _⟩ := progresses call len.toNat (by omega)
  have taken : ¬send call len.toNat = -1 := by omega
  rw [sendLoop, if_pos positive]
  simp only [Int.sub_zero, if_neg taken, Int.toNat_zero, List.drop_zero]

/-- The bytes are handed over completely exactly when there are none, or the first
`send` takes them all. -/
theorem completes_sendBytes_iff (progresses : send.Progresses) (call : Nat) (nonnegative : 0 ≤ len)
    (inside : len ≤ str.length) :
    Completes (sendBytes send call) str len ↔ len = 0 ∨ send call len.toNat = len := by
  have enough : ¬str.length < (len % 2 ^ 32).toNat := by omega
  simp only [Completes, sendBytes, if_neg enough]
  constructor
  · intro completes
    obtain ⟨rounds, ends⟩ := completes []
    refine or_iff_not_imp_left.mpr fun nonzero => ?_
    obtain ⟨some, fits⟩ := progresses call len.toNat (by omega)
    cases rounds with
    | zero => cases ends
    | succ rounds =>
        by_contra partially
        rw [sendLoop_first progresses (by omega),
          sendLoop_short progresses (by omega) (by omega)] at ends
        cases ends
  · rintro (rfl | whole) out
    · exact ⟨1, by simp [sendLoop]⟩
    · by_cases none : len = 0
      · subst none
        exact ⟨1, by simp [sendLoop]⟩
      · refine ⟨2, ?_⟩
        rw [sendLoop_first progresses (by omega), whole, sendLoop, if_neg (Int.lt_irrefl _)]

/-- Both writers hand over exactly the first `len` bytes if and only if there are none or
the first `send` takes all of them. -/
theorem completes_iff (progresses : send.Progresses) (call : Nat) (nonnegative : 0 ≤ len)
    (inside : len ≤ str.length) :
    (Completes (sendString send call) str len ↔ len = 0 ∨ send call len.toNat = len) ∧
      (Completes (sendUstring send call) str len ↔ len = 0 ∨ send call len.toNat = len) :=
  ⟨completes_sendBytes_iff progresses call nonnegative inside,
    completes_sendBytes_iff progresses call nonnegative inside⟩

theorem completes_iff_sample :
    (Completes (sendString (fun _ offered => offered) 0) [1, 2, 3] 2 ↔
      (2 : Int) = 0 ∨ (((2 : Int).toNat : Nat) : Int) = 2) ∧
    (Completes (sendUstring (fun _ offered => offered) 0) [1, 2, 3] 2 ↔
      (2 : Int) = 0 ∨ (((2 : Int).toNat : Nat) : Int) = 2) :=
  completes_iff (fun _ _ positive => ⟨Int.ofNat_lt.mpr positive, Int.le_refl _⟩) 0 (by decide)
    (by decide)

/-- A `send` that takes one byte after the other: the second byte is sent for ever. -/
theorem not_completes_sample :
    Send.Progresses (fun _ _ => 1) ∧
      (∀ rounds, sendString (fun _ _ => 1) 0 rounds [] [1, 2] 2 = none) ∧
      ¬Completes (sendString (fun _ _ => 1) 0) [1, 2] 2 ∧
      ¬Completes (sendUstring (fun _ _ => 1) 0) [1, 2] 2 := by
  have progresses : Send.Progresses (fun _ _ => 1) := by
    intro call offered positive
    exact ⟨Int.le_refl _, Int.ofNat_le.mpr positive⟩
  have incomplete : ¬Completes (sendBytes (fun _ _ => 1) 0) [1, 2] 2 := by
    rw [completes_sendBytes_iff progresses 0 (by decide) (by decide)]
    decide
  refine ⟨progresses, ?_, incomplete, incomplete⟩
  intro rounds
  cases rounds with
  | zero => rfl
  | succ rounds => exact sendLoop_short progresses (by decide) (by decide) rounds 1 [1]

end Send

/-! ## Readers -/

/-- What `recv` returns, and whether `errno` then says that the call would block. -/
structure Received where
  iResult : Int
  again : Bool

/-- The results of `recv`, by the number of the call and the bytes asked for. -/
abbrev Recv := Nat → Nat → Received

/-- Every call returns at least one byte and not more than it is asked for. -/
def Recv.Progresses (recv : Recv) : Prop :=
  ∀ call asked, 0 < asked →
    1 ≤ (recv call asked).iResult ∧ (recv call asked).iResult ≤ asked

variable (recv : Recv)

/-- One `recv`: its result and the bytes at the start of the buffer it was given. -/
def recvBytes (asked : Nat) : Calls UInt8 Exn (Received × UString) :=
  fun _ received i call =>
    let result := recv call asked
    let tmp := (received.drop i).take result.iResult.toNat
    some (.ok ((result, tmp), i + tmp.length, call + 1))

def getInt8 : Calls UInt8 Exn UInt8 := do
  let (result, byte) ← recvBytes recv 1
  if 0 < result.iResult then
    return byte.headD 0
  else if result.iResult = 0 then
    Calls.fail connectionClosed
  else
    Calls.fail connectionError

def getInt32 : Calls UInt8 Exn Int32 := do
  let b4 ← getInt8 recv
  let b3 ← getInt8 recv
  let b2 ← getInt8 recv
  let b1 ← getInt8 recv
  return ((b4.toUInt32 <<< 24) + (b3.toUInt32 <<< 16) + (b2.toUInt32 <<< 8)
    + b1.toUInt32).toInt32

/-- `do { … } while (len > read)`, for what was `read` into `ret` so far. -/
def receive (len : Nat) : Nat → Nat → UString → Calls UInt8 Exn UString
  | 0, _, _ => Calls.pending
  | rounds + 1, read, ret => do
      let (result, tmp) ← recvBytes recv (len - read)
      let (read, ret) ←
        if result.iResult = 0 ∧ result.again then pure (read, ret)
        else if 0 < result.iResult then pure (read + result.iResult.toNat, ret ++ tmp)
        else if result.iResult = 0 then Calls.fail connectionClosed
        else Calls.fail connectionError
      if read < len then receive len rounds read ret else return ret

/-- `getString(len)`. -/
def getString (len : Int) : Calls UInt8 Exn UString := fun rounds =>
  if len = 0 then (pure [] : Calls UInt8 Exn UString) rounds
  else if len < 0 then Calls.fail .badArrayNewLength rounds
  else receive recv len.toNat rounds 0 [] rounds

/-- `getUstring(len)`. -/
def getUstring (len : Int) : Calls UInt8 Exn UString := getString recv len

section Recv

variable {recv} {ending : Ending}

/-- A call in front of the bytes that it may return. -/
theorem recvBytes_apply (asked rounds : Nat) (received : UString) (i call : Nat) :
    recvBytes recv asked rounds received i call =
      some (.ok ((recv call asked, (received.drop i).take (recv call asked).iResult.toNat),
        i + ((received.drop i).take (recv call asked).iResult.toNat).length, call + 1)) := rfl

theorem getInt8_follows (progresses : recv.Progresses) :
    Calls.Follows (getInt8 recv) (SocketUString.getInt8 ending) := by
  intro received start call stop byte read
  unfold SocketUString.getInt8 at read
  split at read
  next inside =>
    cases read
    obtain ⟨some, fits⟩ := progresses call 1 (by decide)
    have one : (recv call 1).iResult = 1 := by omega
    refine ⟨0, call + 1, fun rounds _ => ?_⟩
    have called := @recvBytes_apply recv 1 rounds received start call
    rw [List.drop_eq_getElem_cons inside] at called
    rw [getInt8, Calls.bind_of_ok called]
    simp only [one]
    rfl
  next outside => cases read

theorem getInt32_follows (progresses : recv.Progresses) :
    Calls.Follows (getInt32 recv) (SocketUString.getInt32 ending) :=
  (getInt8_follows progresses).bind fun _ => (getInt8_follows progresses).bind fun _ =>
    (getInt8_follows progresses).bind fun _ => (getInt8_follows progresses).bind fun _ =>
      Calls.Follows.pure _

/-- The loop appends the bytes that are still missing, in as many rounds at most. -/
theorem receive_eq (progresses : recv.Progresses) {len read : Nat} (received ret : UString)
    (i call : Nat) (missing : read < len) (inside : i + (len - read) ≤ received.length) :
    ∃ call', ∀ rounds bound, len - read ≤ rounds →
      receive recv len rounds read ret bound received i call =
        some (.ok (ret ++ (received.drop i).take (len - read), i + (len - read), call')) := by
  induction left : len - read using Nat.strong_induction_on generalizing read ret i call with
  | _ left ih =>
    subst left
    obtain ⟨some, fits⟩ := progresses call (len - read) (by omega)
    obtain ⟨count, counted⟩ : ∃ count : Nat, (recv call (len - read)).iResult = count :=
      ⟨_, (Int.toNat_of_nonneg (by omega)).symm⟩
    rw [counted] at some fits
    have taken : ((received.drop i).take count).length = count := by
      rw [List.length_take, List.length_drop]
      omega
    have step : ∀ rounds bound, receive recv len (rounds + 1) read ret bound received i call =
        (if read + count < len
          then receive recv len rounds (read + count) (ret ++ (received.drop i).take count)
          else pure (ret ++ (received.drop i).take count)) bound received (i + count)
            (call + 1) := by
      intro rounds bound
      have called := @recvBytes_apply recv (len - read) bound received i call
      rw [counted, Int.toNat_natCast, taken] at called
      have positive : (0 : Int) < count := by omega
      have nonzero : ¬((count : Int) = 0) := by omega
      rw [receive, Calls.bind_of_ok called]
      simp only [counted, nonzero, false_and, if_false, if_pos positive, Int.toNat_natCast]
      rfl
    by_cases more : read + count < len
    · obtain ⟨call', rest⟩ := ih (len - (read + count)) (by omega)
        (ret ++ (received.drop i).take count) (i + count) (call + 1) more (by omega) rfl
      refine ⟨call', fun rounds bound enough => ?_⟩
      obtain ⟨rounds, rfl⟩ := Nat.exists_eq_add_of_le' (show 1 ≤ rounds by omega)
      have split : (received.drop i).take (len - read) =
          (received.drop i).take count ++
            (received.drop (i + count)).take (len - (read + count)) := by
        rw [← List.drop_drop, ← List.take_add]
        congr 1
        omega
      have reached : i + count + (len - (read + count)) = i + (len - read) := by omega
      rw [step, if_pos more, rest rounds bound (by omega), split, List.append_assoc, reached]
    · have all : count = len - read := by omega
      refine ⟨call + 1, fun rounds bound enough => ?_⟩
      obtain ⟨rounds, rfl⟩ := Nat.exists_eq_add_of_le' (show 1 ≤ rounds by omega)
      rw [step, if_neg more, all]
      rfl

theorem getString_follows (progresses : recv.Progresses) (len : Int) :
    Calls.Follows (getString recv len) (SocketUString.getUstring ending len) := by
  intro received start call stop found read
  unfold SocketUString.getUstring SocketUString.recvUstring at read
  split at read
  next none =>
    cases read
    exact ⟨0, call, fun rounds _ => by rw [getString, if_pos none]; rfl⟩
  next nonzero =>
    split at read
    next => cases read
    next nonnegative =>
      split at read
      next inside =>
        cases read
        obtain ⟨call', ends⟩ := receive_eq progresses received [] start call
          (show 0 < len.toNat by omega) inside
        refine ⟨len.toNat, call', fun rounds enough => ?_⟩
        rw [getString, if_neg nonzero, if_neg nonnegative]
        exact ends rounds rounds enough
      next => cases read

end Recv

end SocketCalls

end BitMRC

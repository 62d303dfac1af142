import BitMRC.Node.Messages
import BitMRC.Utils.UStringReads

/-!
# The text behind the fields of a sender

Lengths in a decrypted text are 64-bit varints cut down to `int`, so a length can
be negative.  The string that follows then runs to the end of the text, and the
cursor moves backwards.  `TextRead` records the places of one such read; its
lemmas say when another text is read in the same way, and how a text has to be
changed for something else to be shown while the cursor goes on at the same place.
-/

namespace BitMRC

open Foundation UString

/-! ## The text behind the fields -/

/-- The fields in front of the text of a message. -/
def readMsgHead : Reader (Sender × UString) := do
  let sender ← readSender
  let destRipe ← getUstring 20
  let _messageEncoding ← getVarIntB
  return (sender, destRipe)

/-- The fields in front of the text of a broadcast. -/
def readBroadcastHead : Reader Sender := do
  let sender ← readSender
  let _messageEncoding ← getVarIntB
  return sender

theorem readMsgPlain_eq : readMsgPlain = (do
    let (sender, destRipe) ← readMsgHead
    let message ← getVarUstringB
    let ackData ← getVarUstringB
    let k ← Cursor.position
    let sign ← getVarUstringB
    return { sender, destRipe, message, ackData, k, sign }) := by
  simp only [readMsgPlain, readMsgHead, bind_assoc, pure_bind]

theorem readBroadcastPlain_eq : readBroadcastPlain = (do
    let sender ← readBroadcastHead
    let message ← getVarUstringB
    let k ← Cursor.position
    let sign ← getVarUstringB
    return { sender, message, k, sign }) := by
  simp only [readBroadcastPlain, readBroadcastHead, bind_assoc, pure_bind]

/-- Readers of fields in front of a text. -/
structure Fields {α : Type} (head : Reader α) : Prop where
  steady : Cursor.Steady intLimit head
  padded : Cursor.Padded intLimit (0 : UInt8) 5 head

theorem readSender_steady : Cursor.Steady intLimit readSender := by
  have key := @getUstring_steady 64 (by decide) (by decide)
  apply getVarIntB_steady.bind
  intro version
  apply getVarIntB_steady.bind
  intro stream
  apply getInt32_steady.bind
  intro _
  apply key.bind
  intro pubSigningKey
  apply key.bind
  intro pubEncryptionKey
  split
  · exact getVarIntB_steady.bind fun _ => getVarIntB_steady.bind fun _ =>
      Cursor.Steady.pure _ _
  · exact Cursor.Steady.pure _ _

theorem readSender_padded : Cursor.Padded intLimit (0 : UInt8) 4 readSender := by
  have key := @getUstring_padded 64 (by decide) (by decide)
  change Cursor.Padded intLimit 0 (1 + (1 + (0 + (0 + (0 + 2))))) readSender
  apply getVarIntB_padded.bind
  intro version
  apply getVarIntB_padded.bind
  intro stream
  apply getInt32_padded.bind
  intro _
  apply key.bind
  intro pubSigningKey
  apply key.bind
  intro pubEncryptionKey
  split
  · exact getVarIntB_padded.bind fun _ => getVarIntB_padded.bind fun _ =>
      Cursor.Padded.pure _ _ _
  · exact (Cursor.Padded.pure _ _ _).mono (by decide)

theorem readMsgHead_fields : Fields readMsgHead := by
  have ripe := @getUstring_steady 20 (by decide) (by decide)
  have ripePadded := @getUstring_padded 20 (by decide) (by decide)
  refine ⟨?_, ?_⟩
  · exact readSender_steady.bind fun _ => ripe.bind fun _ => getVarIntB_steady.bind fun _ =>
      Cursor.Steady.pure _ _
  · exact readSender_padded.bind fun _ => ripePadded.bind fun _ => getVarIntB_padded.bind
      fun _ => Cursor.Padded.pure _ _ _

theorem readBroadcastHead_fields : Fields readBroadcastHead := by
  refine ⟨?_, ?_⟩
  · exact readSender_steady.bind fun _ => getVarIntB_steady.bind fun _ =>
      Cursor.Steady.pure _ _
  · exact readSender_padded.bind fun _ => getVarIntB_padded.bind fun _ =>
      Cursor.Padded.pure _ _ _

/-- How the text behind the fields of `head` was read: its length stands at `lengthAt`,
the text starts at `textAt`, and the cursor goes on at `behind`. -/
structure TextRead {α : Type} (head : Reader α) (s : UString) (fields : α)
    (lengthAt textAt behind : Nat) (len : Int) (message : UString) : Prop where
  head_eq : head s 0 = .ok (fields, lengthAt)
  length_eq : ∃ word : Int64, word.toInt32.toInt = len ∧
    getVarIntB s lengthAt = .ok (word, textAt)
  text_eq : getUstring len s textAt = .ok (message, behind)

namespace TextRead

variable {α : Type} {head : Reader α} {s : UString} {fields : α}
  {lengthAt textAt behind : Nat} {len : Int} {message : UString}

theorem len_range (read : TextRead head s fields lengthAt textAt behind len message) :
    -2 ^ 31 ≤ len ∧ len < 2 ^ 31 := by
  obtain ⟨word, rfl, _⟩ := read.length_eq
  exact ⟨Int32.le_toInt _, Int32.toInt_lt _⟩

theorem textAt_le (read : TextRead head s fields lengthAt textAt behind len message) :
    textAt ≤ s.length := (getUstring_eq_ok.mp read.text_eq).1

theorem lengthAt_le (read : TextRead head s fields lengthAt textAt behind len message)
    (short : s.length < intLimit) : lengthAt ≤ textAt := by
  obtain ⟨_, _, found⟩ := read.length_eq
  exact getVarIntB_steady.forward short found

theorem behind_eq (read : TextRead head s fields lengthAt textAt behind len message)
    (short : s.length < intLimit) (inside : behind ≤ s.length) : (behind : Int) = textAt + len := by
  obtain ⟨_, _, moved⟩ := getUstring_eq_ok.mp read.text_eq
  obtain ⟨low, high⟩ := read.len_range
  subst moved
  exact advance_inside short read.textAt_le low high inside

/-- The same text is read in only one way. -/
theorem unique {fields' : α} {lengthAt' textAt' behind' : Nat} {len' : Int} {message' : UString}
    (read : TextRead head s fields lengthAt textAt behind len message)
    (other : TextRead head s fields' lengthAt' textAt' behind' len' message') :
    fields' = fields ∧ lengthAt' = lengthAt ∧ textAt' = textAt ∧ behind' = behind ∧
      len' = len ∧ message' = message := by
  obtain ⟨word, rfl, found⟩ := read.length_eq
  obtain ⟨word', rfl, found'⟩ := other.length_eq
  cases read.head_eq.symm.trans other.head_eq
  cases found.symm.trans found'
  cases read.text_eq.symm.trans other.text_eq
  exact ⟨rfl, rfl, rfl, rfl, rfl, rfl⟩

/-- A length that is there and not negative makes the signed bytes fix the text. -/
theorem of_take (read : TextRead head s fields lengthAt textAt behind len message)
    (heads : Fields head) (short : s.length + 1 < intLimit) (present : lengthAt < s.length)
    (positive : 0 ≤ len) (inside : behind ≤ s.length) {right : UString}
    (agree : s.take behind = right.take behind) :
    TextRead head right fields lengthAt textAt behind len message := by
  have less : s.length < intLimit := Nat.lt_of_succ_lt short
  have moved := read.behind_eq less inside
  have order := read.lengthAt_le less
  have small : len < intLimit := read.len_range.2
  obtain ⟨word, wordEq, found⟩ := read.length_eq
  have agreeTo (bound : Nat) (le : bound ≤ behind) : s.take bound = right.take bound := by
    have shorter := congrArg (List.take bound) agree
    rwa [List.take_take, List.take_take, Nat.min_eq_left le] at shorter
  -- one more byte puts the places where the reads stop inside the buffer
  have fits : (s ++ [0]).length < intLimit := by
    rw [List.length_append, List.length_singleton]
    exact short
  have longer : behind < (s ++ [0]).length := by
    rw [List.length_append, List.length_singleton]
    omega
  have agreeLonger (bound : Nat) (le : bound ≤ behind) :
      (s ++ [0]).take bound = right.take bound := by
    rw [List.take_append_of_le_length (Nat.le_trans le inside)]
    exact agreeTo bound le
  refine ⟨?_, ⟨word, wordEq, ?_⟩, ?_⟩
  · exact heads.steady.isLocal less present (agreeTo lengthAt (by omega)) (Nat.le_refl _)
      read.head_eq
  · have kept := getVarIntB_keeps less present read.textAt_le found [0]
    exact getVarIntB_steady.isLocal fits (by omega) (agreeLonger textAt (by omega))
      (Nat.le_refl _) kept
  · have kept := (getUstring_extends positive small).keeps less inside read.text_eq [0]
    exact (getUstring_steady positive small).isLocal fits longer
      (agreeLonger behind (Nat.le_refl _)) (Nat.le_refl _) kept

/-- Behind a negative length the text shows whatever is appended. -/
theorem append (read : TextRead head s fields lengthAt textAt behind len message)
    (heads : Fields head) (negative : len < 0) (tail : UString)
    (short : (s ++ tail).length < intLimit) :
    TextRead head (s ++ tail) fields lengthAt textAt behind len (message ++ tail) := by
  have less : s.length < intLimit := by
    rw [List.length_append] at short
    omega
  obtain ⟨word, wordEq, found⟩ := read.length_eq
  have order := read.lengthAt_le less
  have present : lengthAt < s.length := by
    by_contra missing
    rw [getVarIntB_past (Nat.le_of_not_lt missing)] at found
    cases found
    rw [← wordEq] at negative
    exact absurd negative (by decide)
  refine ⟨?_, ⟨word, wordEq, ?_⟩, ?_⟩
  · exact heads.steady.isLocal less present (List.take_append_of_le_length (by omega)).symm
      (Nat.le_refl _) read.head_eq
  · exact getVarIntB_keeps less present read.textAt_le found tail
  · exact getUstring_negative_append read.len_range.1 negative read.text_eq short

/-- A text without a length can be given a negative one behind it. -/
theorem exists_rewound (read : TextRead head s fields s.length textAt behind len message)
    (heads : Fields head) (short : s.length ≤ 0x40000) (tail : UString)
    (small : tail.length ≤ 0x40000) :
    ∃ (n : Nat) (back : Int), n ≤ 5 ∧
      TextRead head (s ++ (List.replicate n 0 ++ (rewind (n + 5) ++ tail))) fields
        (s.length + n) (s.length + (n + 5)) s.length back tail := by
  have less := lt_intLimit short
  obtain ⟨n, nLe, _, grown⟩ := heads.padded.grows less (Nat.le_refl _) read.head_eq
  obtain ⟨width, word, wordEq, decodes⟩ := @rewind_spec (n + 5) (by omega) (by omega)
  have total : (s ++ (List.replicate n 0 ++ (rewind (n + 5) ++ tail))).length =
      s.length + (n + 5) + tail.length := by
    simp only [List.length_append, List.length_replicate, width]
    omega
  have fits : (s ++ (List.replicate n 0 ++ (rewind (n + 5) ++ tail))).length < intLimit := by
    rw [total]
    simp only [intLimit]
    omega
  have regroup : s ++ (List.replicate n 0 ++ (rewind (n + 5) ++ tail)) =
      s ++ List.replicate n 0 ++ (rewind (n + 5) ++ tail) := by
    rw [List.append_assoc]
  refine ⟨n, -((n + 5 : Nat) : Int), nLe, ?_, ⟨word, wordEq, ?_⟩, ?_⟩
  · rw [regroup] at fits ⊢
    exact grown _ fits
  · rw [regroup] at fits ⊢
    have found := decodes (s ++ List.replicate n 0) tail fits
    rwa [width, List.length_append, List.length_replicate, Nat.add_assoc] at found
  · have moved : advance (s.length + (n + 5)) (-((n + 5 : Nat) : Int)) = s.length := by
      unfold advance
      simp only [intLimit] at less
      omega
    rw [getUstring_negative fits (by omega) (by omega) (by omega), moved]
    have front : s.length + (n + 5) = (s ++ List.replicate n 0 ++ rewind (n + 5)).length := by
      simp only [List.length_append, List.length_replicate, width]
      omega
    rw [regroup, ← List.append_assoc, front, List.drop_left]

/-- The last byte of a text can be replaced. -/
theorem exists_changed (read : TextRead head s fields lengthAt textAt behind len message)
    (heads : Fields head) (short : s.length < intLimit) (positive : 0 < len)
    (inside : behind ≤ s.length) :
    textAt < behind ∧ ∃ byte : UInt8, ∀ tail : UString,
      (s.take (behind - 1) ++ ([byte] ++ tail)).length < intLimit →
      ∃ changed, changed ≠ message ∧ TextRead head (s.take (behind - 1) ++ ([byte] ++ tail))
        fields lengthAt textAt behind len changed := by
  have moved := read.behind_eq short inside
  have order := read.lengthAt_le short
  have high := read.len_range.2
  obtain ⟨word, wordEq, found⟩ := read.length_eq
  obtain ⟨reachable, messageEq, advanced⟩ := getUstring_eq_ok.mp read.text_eq
  have before : behind - 1 < s.length := by omega
  refine ⟨by omega, s[behind - 1] + 1, ?_⟩
  intro tail fits
  have taken : (s.take (behind - 1)).length = behind - 1 :=
    List.length_take_of_le (Nat.le_of_lt before)
  have agree (bound : Nat) (le : bound ≤ behind - 1) :
      s.take bound = (s.take (behind - 1) ++ ([s[behind - 1] + 1] ++ tail)).take bound := by
    rw [List.take_append_of_le_length (by omega), List.take_take, Nat.min_eq_left le]
  have whole : textAt ≤ (s.take (behind - 1) ++ ([s[behind - 1] + 1] ++ tail)).length := by
    rw [List.length_append]
    omega
  refine ⟨_, ?_, ?_, ⟨word, wordEq, ?_⟩, getUstring_eq_ok.mpr ⟨whole, rfl, advanced⟩⟩
  · intro same
    -- the replaced byte is the last one of both texts
    have last := congrArg (fun text => text[(behind - 1) - textAt]?) same
    have wide : (behind - 1) - textAt < sizeT len := by
      unfold sizeT
      omega
    have place : textAt + (behind - 1 - textAt) = behind - 1 := by omega
    simp only [messageEq, List.getElem?_take, List.getElem?_drop, wide, if_true, place]
      at last
    rw [List.getElem?_append_right (by omega), taken, Nat.sub_self,
      List.getElem?_eq_getElem before] at last
    simp only [List.singleton_append, List.getElem?_cons_zero, Option.some.injEq] at last
    have differs : s[behind - 1] + 1 ≠ s[behind - 1] := by
      intro equal
      have one : (1 : UInt8) = 0 := by
        rw [← UInt8.add_right_inj s[behind - 1], equal, UInt8.add_zero]
      exact absurd one (by decide)
    exact differs last
  · exact heads.steady.isLocal short (by omega) (agree textAt (by omega)) order
      read.head_eq
  · exact getVarIntB_steady.isLocal short (by omega) (agree textAt (by omega))
      (Nat.le_refl _) found

/-- An empty text can be given a byte. -/
theorem exists_bumped (read : TextRead head s fields lengthAt textAt behind 0 message)
    (heads : Fields head) (short : s.length < intLimit) (present : lengthAt < s.length) (x : UInt8)
    (tail : UString) (fits : (s.take (textAt - 1) ++ ([1, x] ++ tail)).length < intLimit) :
    lengthAt < textAt ∧ message = [] ∧ TextRead head (s.take (textAt - 1) ++ ([1, x] ++ tail))
      fields lengthAt textAt (textAt + 1) 1 [x] := by
  obtain ⟨word, wordEq, found⟩ := read.length_eq
  obtain ⟨_, messageEq, _⟩ := getUstring_eq_ok.mp read.text_eq
  obtain ⟨ahead, reachable, bumped, bumpedRead, one⟩ :=
    getVarIntB_bump short present found wordEq ([x] ++ tail) (by simpa using fits)
  have regroup : s.take (textAt - 1) ++ ([1] ++ ([x] ++ tail)) =
      s.take (textAt - 1) ++ ([1, x] ++ tail) := rfl
  rw [regroup] at bumpedRead
  have taken : (s.take (textAt - 1)).length = textAt - 1 :=
    List.length_take_of_le (by omega)
  refine ⟨ahead, messageEq, ?_, ⟨bumped, one, bumpedRead⟩, ?_⟩
  · apply heads.steady.isLocal short present _ (Nat.le_refl _) read.head_eq
    rw [List.take_append_of_le_length (by omega), List.take_take, Nat.min_eq_left (by omega)]
  · have split : s.take (textAt - 1) ++ ([1, x] ++ tail) =
        (s.take (textAt - 1) ++ [1]) ++ ([x] ++ tail) := by simp
    have here : (s.take (textAt - 1) ++ [1]).length = textAt := by
      rw [List.length_append, taken, List.length_singleton]
      omega
    rw [split] at fits ⊢
    have text := getUstring_decodes_of_length 1 [x] rfl (s.take (textAt - 1) ++ [1]) tail fits
    rwa [here] at text

end TextRead

end BitMRC

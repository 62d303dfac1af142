import BitMRC.Foundation.Cursor
import Mathlib.Data.List.Forall2
import Mathlib.Data.List.Nodup
import Mathlib.Tactic.Choose

/-!
# Files of records

A file is read record after record until a read fails.  `Reads` says that a
reader returns a value from a complete encoding and stops with a given error
inside an incomplete one; `drain_cut` derives from it what is recovered from
any prefix of a file: the records that lie completely inside.
-/

namespace Foundation

namespace Cursor

variable {σ ε α β S : Type}

/-- Use a computation that does not read. -/
def lift (computed : Except ε α) : Cursor σ ε α := fun _ position =>
  match computed with
  | .ok value => .ok (value, position)
  | .error failure => .error failure

theorem lift_eq_ok {computed : Except ε α} {buffer : List σ} {position next : Nat} {value : α}
    (read : lift computed buffer position = .ok (value, next)) : computed = .ok value := by
  cases computed with
  | ok found =>
      cases read
      rfl
  | error failure => cases read

/-! ## Complete and torn records -/

/-- The reader returns `value` from `encoding` and fails with `torn` inside it, when
the buffer ends there. -/
structure Reads (torn : ε) (reader : Cursor σ ε α) (encoding : List σ) (value : α) : Prop where
  whole : ∀ before after : List σ,
    reader (before ++ (encoding ++ after)) before.length =
      .ok (value, before.length + encoding.length)
  cut : ∀ (before : List σ) (n : Nat), n < encoding.length →
    reader (before ++ encoding.take n) before.length = .error torn

theorem Reads.pure (torn : ε) (value : α) :
    Reads torn (Pure.pure value : Cursor σ ε α) [] value := by
  constructor
  · intro before after
    rfl
  · intro before n inside
    cases inside

/-- Consecutive fields. -/
theorem Reads.bind {torn : ε} {reader : Cursor σ ε α} {next : α → Cursor σ ε β}
    {first second : List σ} {value : α} {result : β} (head : Reads torn reader first value)
    (tail : Reads torn (next value) second result) :
    Reads torn (reader >>= next) (first ++ second) result := by
  constructor
  · intro before after
    have here := head.whole before (second ++ after)
    have rest := tail.whole (before ++ first) after
    rw [List.length_append] at rest
    simp only [List.append_assoc] at here rest ⊢
    rw [bind_of_ok here, rest, List.length_append, Nat.add_assoc]
  · intro before n inside
    by_cases torn : n < first.length
    · have here := head.cut before n torn
      rw [List.take_append_of_le_length (Nat.le_of_lt torn), bind_of_error here]
    · rw [List.length_append] at inside
      have here := head.whole before (second.take (n - first.length))
      have rest := tail.cut (before ++ first) (n - first.length) (by omega)
      have split : (first ++ second).take n = first ++ second.take (n - first.length) := by
        rw [List.take_append, List.take_of_length_le (by omega)]
      rw [split, bind_of_ok here, ← List.append_assoc, ← List.length_append]
      exact rest

/-- The last field of a record. -/
theorem Reads.map {torn : ε} {reader : Cursor σ ε α} {encoding : List σ} {value : α}
    (pack : α → β) (read : Reads torn reader encoding value) :
    Reads torn (reader >>= fun found => Pure.pure (pack found)) encoding (pack value) := by
  have both : Reads torn (reader >>= fun found => Pure.pure (pack found))
      (encoding ++ []) (pack value) := read.bind (Reads.pure torn (pack value))
  rwa [List.append_nil] at both

theorem Reads.passes {torn : ε} {reader : Cursor σ ε α} {encoding : List σ} {value : α}
    (read : Reads torn reader encoding value) (limit : Nat) :
    Passes limit reader encoding value :=
  fun before after _ => read.whole before after

/-! ## Reading a whole file -/

/-- Read and apply records until a read fails; failures that are not `caught` are
passed on. -/
def drain (caught : ε → Bool) (reader : Cursor σ ε α) (apply : S → α → S) :
    Nat → S → List σ → Nat → Except ε S
  | 0, state, _, _ => .ok state
  | fuel + 1, state, buffer, position =>
      match reader buffer position with
      | .ok (value, next) => drain caught reader apply fuel (apply state value) buffer next
      | .error failure => if caught failure then .ok state else .error failure

/-- The records that lie completely inside the first `n` symbols of the file that
holds them one after the other. -/
def complete : Nat → List (List σ × α) → List (List σ × α)
  | _, [] => []
  | n, record :: rest =>
      if record.1.length ≤ n then record :: complete (n - record.1.length) rest else []

/-- The file that holds some records. -/
def file (records : List (List σ × α)) : List σ := records.flatMap Prod.fst

theorem file_append (first second : List (List σ × α)) :
    file (first ++ second) = file first ++ file second := List.flatMap_append

/-- A loop that writes record behind record. -/
theorem foldl_file (pack : α → β) {write : List σ → α → List σ}
    (appends : ∀ buffer value, write buffer value = buffer ++ write [] value) (values : List α)
    (buffer : List σ) : values.foldl write buffer =
      buffer ++ file (values.map fun value => (write [] value, pack value)) := by
  induction values generalizing buffer with
  | nil => exact (List.append_nil buffer).symm
  | cons value rest ih =>
      rw [List.foldl_cons, ih, appends, List.append_assoc]
      rfl

theorem complete_sublist (n : Nat) (records : List (List σ × α)) :
    (complete n records).Sublist records := by
  induction records generalizing n with
  | nil => exact .slnil
  | cons record rest ih =>
      rw [complete]
      split
      · exact (ih _).cons_cons record
      · exact List.nil_sublist _

theorem complete_prefix (n : Nat) (records : List (List σ × α)) :
    complete n records <+: records := by
  induction records generalizing n with
  | nil => exact List.prefix_rfl
  | cons record rest ih =>
      rw [complete]
      split
      · exact (List.prefix_cons_inj record).mpr (ih _)
      · exact List.nil_prefix

/-- The whole file holds all records. -/
theorem complete_file (records : List (List σ × α)) {n : Nat}
    (whole : (file records).length ≤ n) : complete n records = records := by
  induction records generalizing n with
  | nil => rfl
  | cons record rest ih =>
      simp only [file, List.flatMap_cons, List.length_append] at whole
      rw [complete, if_pos (by omega), ih]
      simp only [file]
      omega

/-- A cut inside the last record leaves the others. -/
theorem complete_cut (records : List (List σ × α)) {last : List σ × α} {n : Nat}
    (behind : (file records).length ≤ n) (inside : n < (file (records ++ [last])).length) :
    complete n (records ++ [last]) = records := by
  induction records generalizing n with
  | nil =>
      have torn : ¬(last.1.length ≤ n) := by simpa [file] using inside
      rw [List.nil_append, complete, if_neg torn]
  | cons record rest ih =>
      simp only [file, List.cons_append, List.flatMap_cons, List.length_append] at behind inside
      rw [List.cons_append, complete, if_pos (by omega), ih]
      · simp only [file]
        omega
      · simp only [file]
        omega

/-- Whether a record is complete depends on its encoding alone. -/
theorem complete_map (f : List σ × α → β) (n : Nat) (records : List (List σ × α)) :
    complete n (records.map fun record => (record.1, f record)) =
      (complete n records).map fun record => (record.1, f record) := by
  induction records generalizing n with
  | nil => rfl
  | cons record rest ih =>
      simp only [List.map_cons, complete]
      split
      · rw [List.map_cons, ih]
      · rfl

variable {caught : ε → Bool} {torn : ε} {reader : Cursor σ ε α} {apply : S → α → S}

/-- What every applied record keeps holds when the reading is over. -/
theorem drain_invariant {invariant : S → Prop}
    (step : ∀ (state : S) (buffer : List σ) (position next : Nat) (value : α),
      reader buffer position = .ok (value, next) → invariant state →
        invariant (apply state value))
    {fuel : Nat} {state after : S} {buffer : List σ} {position : Nat} (holds : invariant state)
    (drained : drain caught reader apply fuel state buffer position = .ok after) :
    invariant after := by
  induction fuel generalizing state position with
  | zero =>
      cases drained
      exact holds
  | succ fuel ih =>
      rw [drain] at drained
      split at drained
      next value next read => exact ih (step state buffer position next value read holds) drained
      next =>
        split at drained
        next =>
          cases drained
          exact holds
        next => cases drained

/-- From behind `before`, draining applies the complete records and stops at the cut. -/
theorem drain_records (stops : caught torn = true) {records : List (List σ × α)}
    (reads : ∀ record ∈ records, Reads torn reader record.1 record.2)
    (nonempty : ∀ record ∈ records, 0 < record.1.length)
    (ends : ∀ buffer : List σ, reader buffer buffer.length = .error torn)
    (before : List σ) (n fuel : Nat) (enough : n < fuel) (state : S) :
    drain caught reader apply fuel state (before ++ (file records).take n) before.length =
      .ok (((complete n records).map Prod.snd).foldl apply state) := by
  induction records generalizing before n fuel state with
  | nil =>
      cases fuel with
      | zero => cases enough
      | succ fuel =>
          have finish := ends before
          simp only [file, List.flatMap_nil, List.take_nil, List.append_nil, drain, finish,
            stops, if_true, complete]
          rfl
  | cons record rest ih =>
      have head := reads record List.mem_cons_self
      have positive := nonempty record List.mem_cons_self
      cases fuel with
      | zero => cases enough
      | succ fuel =>
          have split : (file (record :: rest)).take n =
              record.1.take n ++ (file rest).take (n - record.1.length) := by
            rw [file, List.flatMap_cons, List.take_append]
            rfl
          rw [split, complete]
          by_cases inside : record.1.length ≤ n
          · rw [if_pos inside, List.take_of_length_le inside, drain,
              head.whole before ((file rest).take (n - record.1.length))]
            have tail := ih (fun other member => reads other (List.mem_cons_of_mem _ member))
              (fun other member => nonempty other (List.mem_cons_of_mem _ member))
              (before ++ record.1) (n - record.1.length) fuel (by omega) (apply state record.2)
            rw [List.append_assoc, List.length_append] at tail
            exact tail
          · have none : n - record.1.length = 0 := by omega
            rw [if_neg inside, none, List.take_zero, List.append_nil, drain,
              head.cut before n (by omega)]
            simp only [stops, if_true]
            rfl

/-- What is recovered from a prefix of a file: the records completely inside it. -/
theorem drain_cut (stops : caught torn = true) {records : List (List σ × α)}
    (reads : ∀ record ∈ records, Reads torn reader record.1 record.2)
    (nonempty : ∀ record ∈ records, 0 < record.1.length)
    (ends : ∀ buffer : List σ, reader buffer buffer.length = .error torn) (n : Nat) (state : S) :
    drain caught reader apply (((file records).take n).length + 1) state
        ((file records).take n) 0 =
      .ok (((complete n records).map Prod.snd).foldl apply state) := by
  by_cases short : n ≤ (file records).length
  · have length : ((file records).take n).length = n := List.length_take_of_le short
    rw [length]
    exact drain_records stops reads nonempty ends [] n (n + 1) (Nat.lt_succ_self n) state
  · have long : (file records).length ≤ n := Nat.le_of_lt (Nat.lt_of_not_le short)
    rw [List.take_of_length_le long, complete_file records long]
    have whole := @drain_records _ _ _ _ _ _ _ apply stops _ reads nonempty ends []
      (file records).length ((file records).length + 1) (Nat.lt_succ_self _) state
    rwa [List.take_length, complete_file records (Nat.le_refl _)] at whole

/-- The same where what is read is only related to what was written. -/
theorem drain_cut_related [Nonempty α] (stops : caught torn = true)
    {related : β → α → Prop} {records : List (List σ × β)}
    (reads : ∀ record ∈ records, ∃ value, Reads torn reader record.1 value ∧
      related record.2 value)
    (nonempty : ∀ record ∈ records, 0 < record.1.length)
    (ends : ∀ buffer : List σ, reader buffer buffer.length = .error torn) (n : Nat) (state : S) :
    ∃ values, List.Forall₂ related ((complete n records).map Prod.snd) values ∧
      drain caught reader apply (((file records).take n).length + 1) state
          ((file records).take n) 0 = .ok (values.foldl apply state) := by
  choose! value read using reads
  have same : file (records.map fun record => (record.1, value record)) = file records := by
    rw [file, file, List.flatMap_map]
  have drained := @drain_cut _ _ _ _ _ _ _ apply stops
    (records.map fun record => (record.1, value record)) ?_ ?_ ends n state
  · rw [same, complete_map, List.map_map] at drained
    refine ⟨_, ?_, drained⟩
    rw [List.forall₂_map_left_iff, List.forall₂_map_right_iff, List.forall₂_same]
    intro record member
    exact (read record ((complete_sublist n records).subset member)).2
  · intro record member
    obtain ⟨written, inside, rfl⟩ := List.mem_map.mp member
    exact (read written inside).1
  · intro record member
    obtain ⟨written, inside, rfl⟩ := List.mem_map.mp member
    exact nonempty written inside

/-- A read that fails ends the draining, or all of it fails. -/
theorem drain_stop {fuel : Nat} {state after : S} {buffer : List σ} {position : Nat}
    (stuck : ∀ found, reader buffer position ≠ .ok found)
    (drained : drain caught reader apply fuel state buffer position = .ok after) :
    after = state := by
  cases fuel with
  | zero =>
      cases drained
      rfl
  | succ fuel =>
      rw [drain] at drained
      split at drained
      next value next read => exact absurd read (stuck _)
      next =>
        split at drained
        next =>
          cases drained
          rfl
        next => cases drained

/-- An invariant of draining a file whose records are only known to be read as related
values, if they are read at all. -/
theorem drain_related {related : β → α → Prop} {invariant : S → Prop}
    {records : List (List σ × β)}
    (whole : ∀ record ∈ records, ∀ (before after : List σ) (value : α) (next : Nat),
      reader (before ++ (record.1 ++ after)) before.length = .ok (value, next) →
        related record.2 value ∧ next = before.length + record.1.length)
    (cut : ∀ record ∈ records, ∀ (before : List σ) (n : Nat), n < record.1.length →
      ∀ found, reader (before ++ record.1.take n) before.length ≠ .ok found)
    (ends : ∀ (buffer : List σ) (found : α × Nat), reader buffer buffer.length ≠ .ok found)
    (step : ∀ record ∈ records, ∀ (state : S) (value : α), related record.2 value →
      invariant state → invariant (apply state value))
    {before : List σ} {n fuel : Nat} {state after : S} (holds : invariant state)
    (drained : drain caught reader apply fuel state (before ++ (file records).take n)
      before.length = .ok after) : invariant after := by
  induction records generalizing before n fuel state with
  | nil =>
      simp only [file, List.flatMap_nil, List.take_nil, List.append_nil] at drained
      rw [drain_stop (ends before) drained]
      exact holds
  | cons record rest ih =>
      have split : (file (record :: rest)).take n =
          record.1.take n ++ (file rest).take (n - record.1.length) := by
        rw [file, List.flatMap_cons, List.take_append]
        rfl
      rw [split] at drained
      by_cases inside : record.1.length ≤ n
      · rw [List.take_of_length_le inside] at drained
        cases fuel with
        | zero =>
            cases drained
            exact holds
        | succ fuel =>
            cases read : reader
                (before ++ (record.1 ++ (file rest).take (n - record.1.length))) before.length with
            | error failure =>
                rw [drain_stop (by simp [read]) drained]
                exact holds
            | ok found =>
                obtain ⟨value, next⟩ := found
                obtain ⟨same, moved⟩ := whole record List.mem_cons_self _ _ _ _ read
                rw [drain, read, moved, ← List.length_append, ← List.append_assoc] at drained
                exact ih (fun other member => whole other (List.mem_cons_of_mem _ member))
                  (fun other member => cut other (List.mem_cons_of_mem _ member))
                  (fun other member => step other (List.mem_cons_of_mem _ member))
                  (step record List.mem_cons_self state value same holds) drained
      · have none : n - record.1.length = 0 := by omega
        rw [none, List.take_zero, List.append_nil] at drained
        rw [drain_stop (cut record List.mem_cons_self before n (by omega)) drained]
        exact holds

end Cursor

/-! ## Applying records -/

/-- When records with a new key add an entry and the others add none, a list of
records with different keys adds its entries in order. -/
theorem foldl_collect {S α β κ : Type} {apply : S → α → S} {entries : S → List β}
    {pick : α → Option β} {key : β → κ} {good : β → Prop}
    (skip : ∀ state value, pick value = none → entries (apply state value) = entries state)
    (collect : ∀ state value entry, pick value = some entry → good entry →
      key entry ∉ (entries state).map key →
        entries (apply state value) = entries state ++ [entry])
    (values : List α) (state : S) (all : ∀ entry ∈ values.filterMap pick, good entry)
    (new : ((entries state ++ values.filterMap pick).map key).Nodup) :
    entries (values.foldl apply state) = entries state ++ values.filterMap pick := by
  induction values generalizing state with
  | nil => simp
  | cons value rest ih =>
      rw [List.foldl_cons]
      cases picked : pick value with
      | none =>
          have same := skip state value picked
          rw [List.filterMap_cons_none picked] at all new ⊢
          rw [ih (apply state value) all (by rwa [same]), same]
      | some entry =>
          rw [List.filterMap_cons_some picked] at all new ⊢
          have absent : key entry ∉ (entries state).map key := by
            intro present
            rw [List.map_append] at new
            exact List.disjoint_of_nodup_append new present List.mem_cons_self
          have added := collect state value entry picked (all entry List.mem_cons_self) absent
          have later : ∀ other ∈ rest.filterMap pick, good other := fun other member =>
            all other (List.mem_cons_of_mem _ member)
          rw [ih (apply state value) later (by simpa [added] using new), added,
            List.append_assoc, List.singleton_append]

end Foundation

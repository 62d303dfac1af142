import Mathlib.Data.List.Basic

/-!
# Runs

A run of a labelled transition system keeps, for every step, its label and the
state in front of it.  A property of all states of a run follows from what one
step keeps, also when the steps are known to meet a condition.  Runs can be put together and
taken apart, and steps that cannot go on for ever come to a stop.
-/

namespace Foundation

variable {S L : Type}

/-- Runs from a state: the steps taken, oldest first, and the state reached. -/
inductive Run (step : S → L → S → Prop) (start : S) : List (S × L) → S → Prop
  | nil : Run step start [] start
  | next {trace : List (S × L)} {state after : S} {label : L} (before : Run step start trace state)
      (move : step state label after) : Run step start (trace ++ [(state, label)]) after

/-- No step is possible. -/
def Stopped (step : S → L → S → Prop) (state : S) : Prop := ∀ label after, ¬step state label after

/-- Steps whose labels also keep the state behind them. -/
def Recorded (step : S → L → S → Prop) (state : S) (label : L × S) (after : S) : Prop :=
  step state label.1 after ∧ label.2 = after

namespace Run

variable {step : S → L → S → Prop} {start after : S} {trace : List (S × L)}

/-- An invariant of runs in which every step meets a condition. -/
theorem invariant {meets : S → L → Prop} {holds : List (S × L) → S → Prop}
    (initial : holds [] start)
    (keeps : ∀ trace state label after, Run step start trace state → holds trace state →
      meets state label → step state label after → holds (trace ++ [(state, label)]) after)
    (run : Run step start trace after) (all : ∀ taken ∈ trace, meets taken.1 taken.2) :
    holds trace after := by
  induction run with
  | nil => exact initial
  | @next trace state after label before move ih =>
      apply keeps trace state label after before
      · exact ih fun taken member => all taken (List.mem_append_left _ member)
      · exact all (state, label) (by simp)
      · exact move

/-- An invariant of states. -/
theorem state_invariant {holds : S → Prop} (initial : holds start)
    (keeps : ∀ state label after, holds state → step state label after → holds after)
    (run : Run step start trace after) : holds after := by
  induction run with
  | nil => exact initial
  | next before move ih => exact keeps _ _ _ ih move

/-- A run whose steps meet a condition, in states that keep an invariant, is a run of the
steps of this kind. -/
theorem restrict {meets : S → L → Prop} {holds : S → Prop} (initial : holds start)
    (keeps : ∀ state label after, holds state → meets state label → step state label after →
      holds after)
    (run : Run step start trace after) (all : ∀ taken ∈ trace, meets taken.1 taken.2) :
    Run (fun state label after => holds state ∧ meets state label ∧ step state label after)
      start trace after ∧ holds after := by
  induction run with
  | nil => exact ⟨.nil, initial⟩
  | @next trace state after label before move ih =>
      obtain ⟨restricted, held⟩ := ih fun taken member => all taken (List.mem_append_left _ member)
      have met := all (state, label) (by simp)
      exact ⟨.next restricted ⟨held, met, move⟩, keeps _ _ _ held met move⟩

/-- A run takes only steps that there are. -/
theorem taken (run : Run step start trace after) :
    ∀ taken ∈ trace, ∃ next, step taken.1 taken.2 next := by
  induction run with
  | nil => exact List.forall_mem_nil _
  | @next trace state after label before move ih =>
      exact List.forall_mem_append.mpr ⟨ih, List.forall_mem_singleton.mpr ⟨after, move⟩⟩

/-- The states behind the steps of a run. -/
theorem recorded (run : Run step start trace after) :
    ∃ record : List (S × L × S), Run (Recorded step) start record after ∧
      record.map (fun taken => (taken.1, taken.2.1)) = trace := by
  induction run with
  | nil => exact ⟨[], .nil, rfl⟩
  | @next trace state after label before move ih =>
      obtain ⟨record, recorded, rfl⟩ := ih
      refine ⟨record ++ [(state, label, after)], recorded.next ⟨move, rfl⟩, ?_⟩
      rw [List.map_append, List.map_singleton]

theorem mono {fewer : S → L → S → Prop} (run : Run fewer start trace after)
    (le : ∀ state label after, fewer state label after → step state label after) :
    Run step start trace after := by
  induction run with
  | nil => exact .nil
  | next before move ih => exact .next ih (le _ _ _ move)

/-- One run after another. -/
theorem append {middle : S} {more : List (S × L)} (first : Run step start trace middle)
    (second : Run step middle more after) : Run step start (trace ++ more) after := by
  induction second with
  | nil => rwa [List.append_nil]
  | next before move ih =>
      rw [← List.append_assoc]
      exact .next ih move

theorem single {label : L} (move : step start label after) :
    Run step start [(start, label)] after := by
  rw [← List.nil_append [(start, label)]]
  exact .next .nil move

/-- The states and labels of a run in front of its step at some place. -/
theorem split {before behind : List (S × L)} {state : S} {label : L}
    (run : Run step start (before ++ (state, label) :: behind) after) :
    Run step start before state ∧ ∃ next, step state label next ∧ Run step next behind after := by
  generalize whole : before ++ (state, label) :: behind = trace at run
  induction run generalizing behind with
  | nil => simp at whole
  | @next trace middle after last earlier move ih =>
      rcases List.eq_nil_or_concat behind with rfl | ⟨rest, final, rfl⟩
      · obtain ⟨rfl, same⟩ := List.append_inj' whole rfl
        cases same
        exact ⟨earlier, after, move, .nil⟩
      · rw [List.concat_eq_append, ← List.cons_append, ← List.append_assoc] at whole
        obtain ⟨shorter, same⟩ := List.append_inj' whole rfl
        cases same
        obtain ⟨front, next, here, behind⟩ := ih shorter
        rw [List.concat_eq_append]
        exact ⟨front, next, here, .next behind move⟩

end Run

end Foundation

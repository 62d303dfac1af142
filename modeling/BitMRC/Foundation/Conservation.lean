import BitMRC.Foundation.Transition

/-!
# Conservation along runs

A stage of a system holds a sequence of items: a step takes some of them off the front and
puts others behind the end.  Then a whole run neither loses nor repeats an item, and none
overtakes another.  Stages that feed each other make up one stage.
-/

namespace Foundation

variable {S L α β : Type}

/-- What a step takes, and what is held then, is what was held and what the step puts. -/
def Conserves (step : S → L → S → Prop) (held : S → List α) (put taken : S → L → List α) :
    Prop :=
  ∀ ⦃state label after⦄, step state label after →
    taken state label ++ held after = held state ++ put state label

/-- What the steps of a run have put or taken, oldest first. -/
def along (items : S → L → List α) (trace : List (S × L)) : List α :=
  trace.flatMap fun taken => items taken.1 taken.2

section along

variable {items : S → L → List α}

@[simp] theorem along_nil : along items [] = [] := rfl

@[simp] theorem along_append (first second : List (S × L)) :
    along items (first ++ second) = along items first ++ along items second :=
  List.flatMap_append

@[simp] theorem along_singleton (state : S) (label : L) :
    along items [(state, label)] = items state label := by
  simp [along]

/-- Items that each step turns into others. -/
theorem along_flatMap (f : α → List β) (trace : List (S × L)) :
    (along items trace).flatMap f =
      along (fun state label => (items state label).flatMap f) trace :=
  List.flatMap_assoc

end along

namespace Conserves

variable {step : S → L → S → Prop} {start after : S} {trace : List (S × L)}

/-- What the whole run takes, and what is held in the end, is what was held at first and
what the run puts. -/
theorem run {held : S → List α} {put taken : S → L → List α}
    (conserves : Conserves step held put taken) (run : Run step start trace after) :
    along taken trace ++ held after = held start ++ along put trace := by
  induction run with
  | nil => simp
  | @next trace state after label before move ih =>
      calc along taken (trace ++ [(state, label)]) ++ held after
          = along taken trace ++ (taken state label ++ held after) := by simp
        _ = along taken trace ++ held state ++ put state label := by
            rw [conserves move, List.append_assoc]
        _ = held start ++ along put (trace ++ [(state, label)]) := by simp [ih]

/-- A stage that is fed what another one takes. -/
theorem comp {near far : S → List α} {put between taken : S → L → List α}
    (first : Conserves step near put between) (second : Conserves step far between taken) :
    Conserves step (fun state => far state ++ near state) put taken := by
  intro state label after move
  calc taken state label ++ (far after ++ near after)
      = far state ++ (between state label ++ near after) := by
        rw [← List.append_assoc, second move, List.append_assoc]
    _ = far state ++ near state ++ put state label := by rw [first move, List.append_assoc]

/-- What all steps conserve, some of them conserve. -/
theorem mono {fewer : S → L → S → Prop} {held : S → List α} {put taken : S → L → List α}
    (conserves : Conserves step held put taken)
    (le : ∀ state label after, fewer state label after → step state label after) :
    Conserves fewer held put taken :=
  fun state label after move => conserves (le state label after move)

end Conserves

end Foundation

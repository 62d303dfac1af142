import Mathlib.Data.List.Forall2

/-!
# Lists that only grow

`Grows related before after` says that every element of `before` still has its place
in `after`, where a `related` element stands now, and that whatever else is in
`after` stands behind them.
-/

namespace Foundation

universe u

variable {α : Type u} {related : α → α → Prop} {before middle after : List α}

def Grows (related : α → α → Prop) (before after : List α) : Prop :=
  ∃ kept added, List.Forall₂ related before kept ∧ after = kept ++ added

namespace Grows

/-- Elements that change in place. -/
theorem of_forall₂ (pairs : List.Forall₂ related before after) : Grows related before after :=
  ⟨after, [], pairs, (List.append_nil after).symm⟩

theorem refl (reflexive : ∀ a, related a a) (list : List α) : Grows related list list :=
  of_forall₂ (List.forall₂_same.mpr fun a _ => reflexive a)

/-- An element that comes in behind the others. -/
theorem append (reflexive : ∀ a, related a a) (list added : List α) :
    Grows related list (list ++ added) :=
  ⟨list, added, List.forall₂_same.mpr fun a _ => reflexive a, rfl⟩

theorem cons {a b : α} (head : related a b) (tail : Grows related before after) :
    Grows related (a :: before) (b :: after) := by
  obtain ⟨kept, added, pairs, rfl⟩ := tail
  exact ⟨b :: kept, added, .cons head pairs, rfl⟩

theorem trans (transitive : ∀ a b c, related a b → related b c → related a c)
    (first : Grows related before middle) (second : Grows related middle after) :
    Grows related before after := by
  obtain ⟨kept, added, pairs, rfl⟩ := first
  induction pairs generalizing after with
  | nil => exact ⟨[], after, .nil, rfl⟩
  | cons head _ ih =>
      obtain ⟨keptLater, addedLater, pairsLater, rfl⟩ := second
      cases pairsLater with
      | cons next rest => exact cons (transitive _ _ _ head next) (ih ⟨_, addedLater, rest, rfl⟩)

/-- What became of an element. -/
theorem exists_mem (grows : Grows related before after) {a : α} (member : a ∈ before) :
    ∃ b ∈ after, related a b := by
  obtain ⟨kept, added, pairs, rfl⟩ := grows
  induction pairs with
  | nil => cases member
  | @cons first now _ _ head _ ih =>
      rcases List.mem_cons.mp member with rfl | later
      · exact ⟨now, List.mem_cons_self, head⟩
      · obtain ⟨b, found, pair⟩ := ih later
        exact ⟨b, List.mem_cons_of_mem _ found, pair⟩

end Grows

end Foundation

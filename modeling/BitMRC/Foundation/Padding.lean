import BitMRC.Foundation.Cursor

/-!
# Readers on longer buffers

`Extends` says that a read which stops inside its buffer is not affected by what
is appended to the buffer.  Some readers make up a value at the very end of a
buffer and stay there; they are not extended.  `Padded` covers them: appended
padding symbols are read in place of the values that were made up, and `count`
bounds how many of them there are.
-/

namespace Foundation.Cursor

variable {σ ε α β : Type}

/-- A read that stops inside the buffer is the same in every longer buffer. -/
structure Extends (limit : Nat) (reader : Cursor σ ε α) : Prop where
  forward : Forward limit reader
  keeps : ∀ ⦃buffer : List σ⦄ ⦃start stop : Nat⦄ ⦃value : α⦄, buffer.length < limit →
    stop ≤ buffer.length → reader buffer start = .ok (value, stop) →
    ∀ tail : List σ, reader (buffer ++ tail) start = .ok (value, stop)

theorem Extends.pure (limit : Nat) (value : α) :
    Extends limit (Pure.pure value : Cursor σ ε α) :=
  ⟨Forward.pure limit value, fun _ _ _ _ _ _ read _ => read⟩

theorem Extends.bind {limit : Nat} {reader : Cursor σ ε α} {next : α → Cursor σ ε β}
    (head : Extends limit reader) (tail : ∀ value, Extends limit (next value)) :
    Extends limit (reader >>= next) := by
  refine ⟨head.forward.bind fun value => (tail value).forward, ?_⟩
  intro buffer start stop result short inside read appended
  obtain ⟨value, middle, first, second⟩ := bind_eq_ok.mp read
  have middleLe : middle ≤ stop := (tail value).forward short second
  exact bind_eq_ok.mpr ⟨value, middle,
    head.keeps short (Nat.le_trans middleLe inside) first appended,
    (tail value).keeps short inside second appended⟩

/-- Padding in front of whatever else is appended restores a read that stopped inside
the buffer or at its end; a read that stopped inside needs none. -/
structure Padded (limit : Nat) (pad : σ) (count : Nat) (reader : Cursor σ ε α) : Prop where
  forward : Forward limit reader
  /-- A read that stays at the end of a buffer does so at the end of every buffer. -/
  atEnd : ∀ ⦃left right : List σ⦄ ⦃value : α⦄, left.length < limit → right.length < limit →
    reader left left.length = .ok (value, left.length) →
    reader right right.length = .ok (value, right.length)
  grows : ∀ ⦃buffer : List σ⦄ ⦃start stop : Nat⦄ ⦃value : α⦄, buffer.length < limit →
    stop ≤ buffer.length → reader buffer start = .ok (value, stop) →
    ∃ n ≤ count, (stop < buffer.length → n = 0) ∧ ∀ tail : List σ,
      (buffer ++ List.replicate n pad ++ tail).length < limit →
      reader (buffer ++ List.replicate n pad ++ tail) start = .ok (value, stop + n)

theorem Padded.pure (limit : Nat) (pad : σ) (value : α) :
    Padded limit pad 0 (Pure.pure value : Cursor σ ε α) := by
  refine ⟨Forward.pure limit value, ?_, ?_⟩
  · intro left right found _ _ read
    cases read
    rfl
  · intro buffer start stop found _ _ read
    cases read
    exact ⟨0, Nat.le_refl 0, fun _ => rfl, fun _ _ => rfl⟩

theorem Padded.mono {limit : Nat} {pad : σ} {count more : Nat} {reader : Cursor σ ε α}
    (padded : Padded limit pad count reader) (le : count ≤ more) :
    Padded limit pad more reader := by
  refine ⟨padded.forward, padded.atEnd, ?_⟩
  intro buffer start stop value short inside read
  obtain ⟨n, nLe, nZero, grown⟩ := padded.grows short inside read
  exact ⟨n, Nat.le_trans nLe le, nZero, grown⟩

/-- A reader that makes up nothing is padded by nothing. -/
theorem Extends.padded {limit : Nat} {reader : Cursor σ ε α} (kept : Extends limit reader)
    (pad : σ) (atEnd : ∀ ⦃left right : List σ⦄ ⦃value : α⦄, left.length < limit →
      right.length < limit → reader left left.length = .ok (value, left.length) →
      reader right right.length = .ok (value, right.length)) :
    Padded limit pad 0 reader := by
  refine ⟨kept.forward, atEnd, ?_⟩
  intro buffer start stop value short inside read
  refine ⟨0, Nat.le_refl 0, fun _ => rfl, ?_⟩
  intro tail _
  simp only [List.replicate_zero, List.append_nil]
  exact kept.keeps short inside read tail

theorem Padded.bind {limit : Nat} {pad : σ} {count rest : Nat} {reader : Cursor σ ε α}
    {next : α → Cursor σ ε β} (head : Padded limit pad count reader)
    (tail : ∀ value, Padded limit pad rest (next value)) :
    Padded limit pad (count + rest) (reader >>= next) := by
  refine ⟨head.forward.bind fun value => (tail value).forward, ?_, ?_⟩
  · intro left right result leftShort rightShort read
    obtain ⟨value, middle, first, second⟩ := bind_eq_ok.mp read
    have stays : middle = left.length :=
      Nat.le_antisymm ((tail value).forward leftShort second) (head.forward leftShort first)
    subst stays
    exact bind_eq_ok.mpr ⟨value, right.length, head.atEnd leftShort rightShort first,
      (tail value).atEnd leftShort rightShort second⟩
  · intro buffer start stop result short inside read
    obtain ⟨value, middle, first, second⟩ := bind_eq_ok.mp read
    have middleLe : middle ≤ stop := (tail value).forward short second
    obtain ⟨n, nLe, nZero, padded⟩ := head.grows short (Nat.le_trans middleLe inside) first
    by_cases none : n = 0
    · subst none
      obtain ⟨m, mLe, mZero, restPadded⟩ := (tail value).grows short inside second
      refine ⟨m, by omega, mZero, ?_⟩
      intro appended fits
      have firstPadded := padded (List.replicate m pad ++ appended) (by simpa using fits)
      simp only [List.replicate_zero, List.append_nil, Nat.add_zero, ← List.append_assoc]
        at firstPadded
      exact bind_eq_ok.mpr ⟨value, middle, firstPadded, restPadded appended fits⟩
    · -- the head has used padding, so it stopped at the end and the rest stayed there
      have stopEq : stop = buffer.length := by
        by_contra before
        exact none (nZero (by omega))
      have middleEq : middle = buffer.length := by
        by_contra before
        exact none (nZero (by omega))
      rw [middleEq] at first second padded
      rw [stopEq] at second
      by_cases wide : (buffer ++ List.replicate n pad).length < limit
      · have moved := (tail value).atEnd short wide second
        obtain ⟨m, mLe, _, restPadded⟩ := (tail value).grows wide (Nat.le_refl _) moved
        refine ⟨n + m, by omega, fun before => absurd before (by omega), ?_⟩
        intro appended fits
        rw [← List.replicate_append_replicate, ← List.append_assoc] at fits ⊢
        have firstPadded := padded (List.replicate m pad ++ appended) (by
          simpa [Nat.add_assoc] using fits)
        rw [← List.append_assoc] at firstPadded
        have second := restPadded appended fits
        rw [List.length_append, List.length_replicate] at second
        rw [stopEq, ← Nat.add_assoc]
        exact bind_eq_ok.mpr ⟨value, _, firstPadded, second⟩
      · refine ⟨n, by omega, fun before => absurd before (by omega), ?_⟩
        intro appended fits
        rw [List.length_append] at fits
        omega

end Foundation.Cursor

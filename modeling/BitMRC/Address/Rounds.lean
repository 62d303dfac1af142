import BitMRC.Address.Search
import Mathlib.Data.Nat.Count

/-!
# Rounds of the search in `generateDeterministic`

The rounds are numbered from nonce 0 on, over all calls.  A call goes from the round that
it begins with to the first one whose digest begins with a zero byte.
-/

namespace BitMRC

open Foundation UString

variable {platform : Platform} {passphrase : UString}

namespace Addr

/-! ## Nonces -/

theorem afterRounds_eq (nonce : Int32) (rounds : Nat) :
    afterRounds nonce rounds = nonce + 2 * Int32.ofNat rounds := by
  induction rounds generalizing nonce with
  | zero => simp [afterRounds]
  | succ rounds ih =>
      have one : Int32.ofNat 1 = 1 := rfl
      rw [afterRounds, ih, Int32.ofNat_add]
      grind

theorem afterRounds_add (nonce : Int32) (first second : Nat) :
    afterRounds (afterRounds nonce first) second = afterRounds nonce (first + second) := by
  induction first generalizing nonce with
  | zero => rw [afterRounds, Nat.zero_add]
  | succ first ih => rw [afterRounds, ih, Nat.succ_add, afterRounds]

theorem afterRounds_succ (nonce : Int32) (rounds : Nat) :
    afterRounds nonce (rounds + 1) = afterRounds nonce rounds + 2 :=
  (afterRounds_add nonce rounds 1).symm

theorem afterRounds_one (rounds : Nat) : afterRounds 1 rounds = afterRounds 0 rounds + 1 := by
  rw [afterRounds_eq, afterRounds_eq]
  grind

/-- The nonces come round after `2 ^ 31` rounds and not before. -/
theorem afterRounds_eq_iff (left right : Nat) :
    afterRounds 0 left = afterRounds 0 right ↔ left % 2 ^ 31 = right % 2 ^ 31 := by
  rw [afterRounds_eq, afterRounds_eq]
  constructor
  · intro same
    have bits := congrArg (fun nonce : Int32 => nonce.toBitVec.toNat) same
    simp at bits
    omega
  · intro same
    apply Int32.toBitVec_inj.mp
    apply BitVec.eq_of_toNat_eq
    simp
    omega

/-- The nonces of a round, for signing and encryption. -/
def noncesAt (round : Nat) : Int32 × Int32 := (afterRounds 0 round, afterRounds 1 round)

theorem noncesAt_eq_iff (left right : Nat) :
    noncesAt left = noncesAt right ↔ left % 2 ^ 31 = right % 2 ^ 31 := by
  rw [noncesAt, noncesAt, Prod.mk.injEq, afterRounds_one, afterRounds_one, ← afterRounds_eq_iff]
  constructor
  · exact And.left
  · exact fun same => ⟨same, by rw [same]⟩

/-- No pair is tried twice as long as the nonces do not come round. -/
theorem nodup_noncesAt_iff (rounds : Nat) :
    ((List.range rounds).map noncesAt).Nodup ↔ rounds ≤ 2 ^ 31 := by
  constructor
  · intro nodup
    by_contra long
    have again := List.inj_on_of_nodup_map nodup (List.mem_range.mpr (by omega : 0 < rounds))
      (List.mem_range.mpr (by omega : 2 ^ 31 < rounds)) ((noncesAt_eq_iff _ _).mpr rfl)
    exact absurd again (by decide)
  · intro short
    refine List.Nodup.map_on ?_ List.nodup_range
    intro left leftIn right rightIn same
    have equal := (noncesAt_eq_iff _ _).mp same
    rw [List.mem_range] at leftIn rightIn
    omega

/-! ## Rounds that end a search -/

/-- The exponents of a round. -/
def pairAt (platform : Platform) (passphrase : UString) (round : Nat) : Nat × Nat :=
  roundPair platform passphrase 0 1 round

theorem roundPair_afterRounds (before round : Nat) :
    roundPair platform passphrase (afterRounds 0 before) (afterRounds 0 before + 1) round =
      pairAt platform passphrase (before + round) := by
  rw [pairAt, roundPair, roundPair, ← afterRounds_one, afterRounds_add, afterRounds_add]

/-- The search ends with this round. -/
def PassesAt (platform : Platform) (passphrase : UString) (round : Nat) : Prop :=
  (deterministicDigest platform (pairAt platform passphrase round)).head? = some 0

instance : DecidablePred (PassesAt platform passphrase) :=
  fun _ => inferInstanceAs (Decidable (_ = _))

/-- `loadKeys` takes the keys of this round. -/
structure LoadsAt (platform : Platform) (passphrase : UString) (round : Nat) : Prop where
  privE_size : minEncodedSize (pairAt platform passphrase round).1 = 32
  privS_size : minEncodedSize (pairAt platform passphrase round).2 = 32
  loadsBack : LoadsBack platform
    (platform.publicPoint (pairAt platform passphrase round).1).minimal
    (platform.publicPoint (pairAt platform passphrase round).2).minimal

theorem loadKeys_at_iff {self own : Addr} {round : Nat} {stream version : Int32} {loaded : Bool}
    (load : self.loadKeys platform
      (platform.publicPoint (pairAt platform passphrase round).1).minimal
      (platform.publicPoint (pairAt platform passphrase round).2).minimal
      (privText (pairAt platform passphrase round).1)
      (privText (pairAt platform passphrase round).2) stream version = .ok (loaded, own)) :
    loaded = true ↔ LoadsAt platform passphrase round := by
  have backed (privE_size : minEncodedSize (pairAt platform passphrase round).1 = 32)
      (privS_size : minEncodedSize (pairAt platform passphrase round).2 = 32) :
      loaded = decide (LoadsBack platform
        (platform.publicPoint (pairAt platform passphrase round).1).minimal
        (platform.publicPoint (pairAt platform passphrase round).2).minimal) := by
    have right : RightForm (platform.publicPoint (pairAt platform passphrase round).1).minimal
        (platform.publicPoint (pairAt platform passphrase round).2).minimal
        (privText (pairAt platform passphrase round).1)
        (privText (pairAt platform passphrase round).2) :=
      ⟨not_wrongPrefix (.inl rfl) _, not_wrongPrefix (.inl rfl) _,
        (privText_length _).trans privE_size, (privText_length _).trans privS_size⟩
    obtain ⟨_, _, flag, _⟩ := (right.loadKeys_eq self stream version).mp load
    exact flag
  constructor
  · rintro rfl
    obtain ⟨privE_size, privS_size, _⟩ := @loadKeys_serialised platform [] (.inl rfl) self own
      (pairAt platform passphrase round) stream version load
    exact ⟨privE_size, privS_size, of_decide_eq_true (backed privE_size privS_size).symm⟩
  · intro loads
    rw [backed loads.privE_size loads.privS_size]
    exact decide_eq_true loads.loadsBack

/-! ## One call, from the nonces of a round on -/

theorem leadingZeros_ne_zero {digest : UString} (first : digest.head? = some 0) :
    leadingZeros digest ≠ .ok 0 := by
  by_cases kept : ∃ byte ∈ digest, byte ≠ 0
  · obtain ⟨count, zeros⟩ := leadingZeros_pos first kept
    rw [zeros]
    simp
  · rw [leadingZeros_undefined kept]
    exact nofun

/-- The pairs of nonces that `searchDeterministic` goes through. -/
def triedPairs (platform : Platform) (passphrase : UString) :
    Nat → Int32 → Int32 → List (Int32 × Int32)
  | 0, _, _ => []
  | fuel + 1, signNonce, encNonce =>
      (signNonce, encNonce) ::
        match leadingZeros (deterministicDigest platform
          (passphrasePair platform passphrase signNonce encNonce)) with
        | .ok 0 => triedPairs platform passphrase fuel (signNonce + 2) (encNonce + 2)
        | _ => []

/-- The first round from another one on that ends the search. -/
structure FirstPass (platform : Platform) (passphrase : UString) (start round : Nat) : Prop where
  start_le : start ≤ round
  passes : PassesAt platform passphrase round
  earlier : ∀ before, start ≤ before → before < round → ¬PassesAt platform passphrase before

theorem FirstPass.eq {start left right : Nat} (first : FirstPass platform passphrase start left)
    (other : FirstPass platform passphrase start right) : left = right := by
  rcases Nat.lt_trichotomy left right with less | same | more
  · exact absurd first.passes (other.earlier left first.start_le less)
  · exact same
  · exact absurd other.passes (first.earlier right other.start_le more)

theorem count_eq_of_none {start stop : Nat} (le : start ≤ stop)
    (none : ∀ round, start ≤ round → round < stop → ¬PassesAt platform passphrase round) :
    Nat.count (PassesAt platform passphrase) stop =
      Nat.count (PassesAt platform passphrase) start := by
  obtain ⟨rounds, rfl⟩ := Nat.exists_eq_add_of_le le
  have zero : Nat.count (fun round => PassesAt platform passphrase (start + round)) rounds = 0 := by
    apply Nat.count_iff_forall_not.mpr
    intro round less
    exact none (start + round) (Nat.le_add_right _ _) (Nat.add_lt_add_left less _)
  rw [Nat.count_add, zero, Nat.add_zero]

theorem FirstPass.count_eq {start round : Nat} (first : FirstPass platform passphrase start round) :
    Nat.count (PassesAt platform passphrase) round =
      Nat.count (PassesAt platform passphrase) start :=
  count_eq_of_none first.start_le first.earlier

theorem FirstPass.count_succ {start round : Nat}
    (first : FirstPass platform passphrase start round) :
    Nat.count (PassesAt platform passphrase) (round + 1) =
      Nat.count (PassesAt platform passphrase) start + 1 := by
  rw [Nat.count_succ, if_pos first.passes, first.count_eq]

theorem exists_firstPass {start bound : Nat}
    (more : Nat.count (PassesAt platform passphrase) start <
      Nat.count (PassesAt platform passphrase) bound) :
    ∃ round < bound, FirstPass platform passphrase start round := by
  have pass : ∃ round, start ≤ round ∧ round < bound ∧ PassesAt platform passphrase round := by
    by_contra none
    have le : start ≤ bound := by
      by_contra behind
      exact absurd (Nat.count_monotone (PassesAt platform passphrase) (Nat.le_of_not_le behind))
        (Nat.not_le.mpr more)
    rw [count_eq_of_none le fun round low high passes => none ⟨round, low, high, passes⟩] at more
    exact Nat.lt_irrefl _ more
  obtain ⟨low, high, passes⟩ := Nat.find_spec pass
  refine ⟨Nat.find pass, high, low, passes, ?_⟩
  intro before lower less passed
  exact Nat.find_min pass less ⟨lower, less.trans high, passed⟩

theorem triedPairs_round {fuel round : Nat} {signNonce encNonce : Int32} (enough : round < fuel)
    (earlier : ∀ before < round, (deterministicDigest platform
      (roundPair platform passphrase signNonce encNonce before)).head? ≠ some 0)
    (first : (deterministicDigest platform
      (roundPair platform passphrase signNonce encNonce round)).head? = some 0) :
    triedPairs platform passphrase fuel signNonce encNonce =
      (List.range (round + 1)).map fun before =>
        (afterRounds signNonce before, afterRounds encNonce before) := by
  induction fuel generalizing round signNonce encNonce with
  | zero => exact absurd enough (Nat.not_lt_zero _)
  | succ fuel ih =>
      rw [triedPairs, List.range_succ_eq_map, List.map_cons, List.map_map]
      congr 1
      cases round with
      | zero =>
          split
          next again =>
            have positive : leadingZeros (deterministicDigest platform
                (passphrasePair platform passphrase signNonce encNonce)) ≠ .ok 0 :=
              leadingZeros_ne_zero first
            exact absurd again positive
          next => rfl
      | succ round =>
          have nonempty : deterministicDigest platform
              (passphrasePair platform passphrase signNonce encNonce) ≠ [] :=
            List.ne_nil_of_length_pos (by simp [deterministicDigest])
          have again := leadingZeros_of_head nonempty (earlier 0 (Nat.succ_pos _))
          simp only [again]
          exact ih (Nat.lt_of_succ_lt_succ enough)
            (fun before less => earlier (before + 1) (Nat.succ_lt_succ less)) first

/-- The nonces of so many rounds from one on. -/
def noncesFrom (start rounds : Nat) : List (Int32 × Int32) :=
  (List.range rounds).map fun round => noncesAt (start + round)

theorem noncesFrom_zero (rounds : Nat) :
    noncesFrom 0 rounds = (List.range rounds).map noncesAt := by
  simp only [noncesFrom, Nat.zero_add]

theorem noncesFrom_append (start first second : Nat) :
    noncesFrom start first ++ noncesFrom (start + first) second =
      noncesFrom start (first + second) := by
  simp only [noncesFrom, List.range_add, List.map_append, List.map_map, Function.comp_def,
    Nat.add_assoc]

/-- Where the search ends, and what it has tried until then. -/
theorem searchDeterministic_spec {fuel start : Nat} {pair : Nat × Nat} {next : Int32}
    (searched : searchDeterministic platform passphrase fuel (afterRounds 0 start)
      (afterRounds 0 start + 1) = .ok (some (pair.1, pair.2, next))) :
    ∃ rounds < fuel, FirstPass platform passphrase start (start + rounds) ∧
      pair = pairAt platform passphrase (start + rounds) ∧
      next = afterRounds 0 (start + rounds + 1) ∧
      triedPairs platform passphrase fuel (afterRounds 0 start) (afterRounds 0 start + 1) =
        noncesFrom start (rounds + 1) := by
  obtain ⟨rounds, enough, derived, nextEq, earlier, first, _⟩ :=
    searchDeterministic_eq_some searched
  rw [derived] at first
  have tried := triedPairs_round enough earlier first
  simp only [roundPair_afterRounds] at derived earlier first
  refine ⟨rounds, enough, ⟨Nat.le_add_right _ _, first, ?_⟩, derived, ?_, ?_⟩
  · intro before low high passes
    obtain ⟨round, rfl⟩ := Nat.exists_eq_add_of_le low
    exact earlier round (by omega) passes
  · rw [nextEq, afterRounds_add, afterRounds_succ]
  · simpa only [noncesFrom, noncesAt, ← afterRounds_one, afterRounds_add] using tried

/-- More fuel does not change where the search ends. -/
theorem FirstPass.search_eq {fuel more start rounds : Nat}
    (first : FirstPass platform passphrase start (start + rounds)) (enough : rounds < fuel)
    (also : rounds < more) :
    searchDeterministic platform passphrase fuel (afterRounds 0 start)
        (afterRounds 0 start + 1) =
      searchDeterministic platform passphrase more (afterRounds 0 start)
        (afterRounds 0 start + 1) := by
  have earlier : ∀ before < rounds, (deterministicDigest platform (roundPair platform passphrase
      (afterRounds 0 start) (afterRounds 0 start + 1) before)).head? ≠ some 0 := by
    intro before less
    rw [roundPair_afterRounds]
    exact first.earlier _ (Nat.le_add_right _ _) (Nat.add_lt_add_left less _)
  have passes : (deterministicDigest platform (roundPair platform passphrase
      (afterRounds 0 start) (afterRounds 0 start + 1) rounds)).head? = some 0 := by
    rw [roundPair_afterRounds]
    exact first.passes
  rw [searchDeterministic_round enough earlier passes,
    searchDeterministic_round also earlier passes]

theorem FirstPass.generate_eq {fuel more start rounds : Nat}
    (first : FirstPass platform passphrase start (start + rounds)) (enough : rounds < fuel)
    (also : rounds < more) (self : Addr) :
    self.generateDeterministic platform passphrase fuel (afterRounds 0 start) =
      self.generateDeterministic platform passphrase more (afterRounds 0 start) := by
  rw [generateDeterministic, generateDeterministic, first.search_eq enough also]

/-- What a call returns: the nonce behind the round that it took, or its own argument. -/
theorem generateDeterministic_spec {self own : Addr} {fuel start : Nat} {next : Int32}
    (generated : self.generateDeterministic platform passphrase fuel (afterRounds 0 start) =
      .ok (some (next, own))) :
    ∃ rounds < fuel, FirstPass platform passphrase start (start + rounds) ∧
      triedPairs platform passphrase fuel (afterRounds 0 start) (afterRounds 0 start + 1) =
        noncesFrom start (rounds + 1) ∧
      (LoadsAt platform passphrase (start + rounds) ∧
          next = afterRounds 0 (start + rounds + 1) ∨
        ¬LoadsAt platform passphrase (start + rounds) ∧ next = afterRounds 0 start) := by
  obtain ⟨privE, privS, signNonce, loaded, searched, load, nextEq⟩ :=
    generateDeterministic_eq_some generated
  obtain ⟨rounds, enough, first, derived, behind, tried⟩ :=
    @searchDeterministic_spec platform passphrase fuel start (privE, privS) signNonce searched
  obtain ⟨rfl, rfl⟩ := Prod.mk.inj derived
  have flag := loadKeys_at_iff load
  refine ⟨rounds, enough, first, tried, ?_⟩
  cases loaded with
  | true => exact .inl ⟨flag.mp rfl, nextEq.trans behind⟩
  | false => exact .inr ⟨fun loads => Bool.noConfusion (flag.mpr loads), nextEq⟩

end Addr

end BitMRC

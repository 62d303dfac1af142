import BitMRC.Address.Rounds
import BitMRC.Foundation.Transition
import BitMRC.Node.State

/-!
# Addresses of a passphrase

`generateDeterministicAddr` makes `n` addresses of a passphrase, one call of
`generateDeterministic` after the other.  Each call goes on with the nonces behind those of
the last one, and a call that fails returns the nonce that it was given.
-/

namespace BitMRC

open Foundation UString

variable {platform : Platform} {passphrase : UString}

/-! ## The loop -/

/-- The variables of the loop of `generateDeterministicAddr`, with the number of its
iterations so far, the addresses that it passed to `addAddr`, and the pairs of nonces that
its calls have tried. -/
structure Production where
  node : Node
  i : Nat
  nonce : Int32
  iterations : Nat
  added : List Addr
  tried : List (Int32 × Int32)

namespace Production

open Addr

def start (node : Node) : Production where
  node := node
  i := 0
  nonce := 0
  iterations := 0
  added := []
  tried := []

/-- The call that the next iteration makes; its `Addr` is a new one. -/
def call (platform : Platform) (uninit : Nat → Uninit) (passphrase : UString) (search : Nat)
    (self : Production) : Except Exn (Option (Int32 × Addr)) :=
  (Addr.new (uninit self.iterations)).generateDeterministic platform passphrase search self.nonce

/-- The body of the loop. -/
def iterate (platform : Platform) (uninit : Nat → Uninit) (passphrase : UString) (search : Nat)
    (self : Production) : Except Exn (Option Production) := do
  match ← self.call platform uninit passphrase search with
  | none => return none
  | some (nonce, address) =>
      let called := {
        self with
        nonce
        iterations := self.iterations + 1
        tried := self.tried ++ triedPairs platform passphrase search self.nonce (self.nonce + 1) }
      if nonce = self.nonce then
        return some called
      else
        return some {
          called with
          node := self.node.addPrivAddr address
          i := self.i + 1
          added := self.added ++ [address] }

end Production

/-- `generateDeterministicAddr`, where a call has fuel for so many rounds of its search. -/
def generateDeterministicAddr (platform : Platform) (uninit : Nat → Uninit)
    (passphrase : UString) (n search : Nat) : Nat → Production → Except Exn (Option Production)
  | 0, _ => .ok none
  | fuel + 1, self =>
      if self.i < n then do
        match ← self.iterate platform uninit passphrase search with
        | none => return none
        | some next => generateDeterministicAddr platform uninit passphrase n search fuel next
      else
        .ok (some self)

/-! ## What an iteration does -/

namespace Production

open Addr

variable {uninit : Nat → Uninit} {node : Node} {n search : Nat} {self next : Production}

/-- The call takes a round whose keys are loaded, and the nonce behind it is another one. -/
def Advances (platform : Platform) (passphrase : UString) (start round : Nat) : Prop :=
  LoadsAt platform passphrase round ∧ (round + 1) % 2 ^ 31 ≠ start % 2 ^ 31

/-- An iteration ends when its call does. -/
theorem exists_iterate {found : Int32 × Addr}
    (called : self.call platform uninit passphrase search = .ok (some found)) :
    ∃ next, self.iterate platform uninit passphrase search = .ok (some next) := by
  obtain ⟨nonce, address⟩ := found
  rw [iterate, called]
  by_cases same : nonce = self.nonce
  · exact ⟨_, if_pos same⟩
  · exact ⟨_, if_neg same⟩

/-- An iteration adds an address, or leaves what the next call depends on as it was. -/
theorem iterate_cases {start : Nat} (nonce : self.nonce = afterRounds 0 start)
    (iterated : self.iterate platform uninit passphrase search = .ok (some next)) :
    ∃ rounds < search, FirstPass platform passphrase start (start + rounds) ∧
      ((Advances platform passphrase start (start + rounds) ∧ ∃ address, next = {
          node := self.node.addPrivAddr address
          i := self.i + 1
          nonce := afterRounds 0 (start + rounds + 1)
          iterations := self.iterations + 1
          added := self.added ++ [address]
          tried := self.tried ++ noncesFrom start (rounds + 1) }) ∨
        ¬Advances platform passphrase start (start + rounds) ∧ next.i = self.i ∧
          next.nonce = self.nonce) := by
  obtain ⟨found, called, iterated⟩ := bind_eq_ok.mp iterated
  cases found with
  | none => cases iterated
  | some found =>
      obtain ⟨after, address⟩ := found
      rw [call, nonce] at called
      obtain ⟨rounds, inside, first, tried, outcome⟩ := generateDeterministic_spec called
      refine ⟨rounds, inside, first, ?_⟩
      simp only [nonce, tried] at iterated
      rcases outcome with ⟨loads, rfl⟩ | ⟨fails, rfl⟩
      · split at iterated
        next same =>
          cases iterated
          exact .inr ⟨fun advances => advances.2 ((afterRounds_eq_iff _ _).mp same), rfl,
            same.trans nonce.symm⟩
        next other =>
          cases iterated
          exact .inl ⟨⟨loads, mt (afterRounds_eq_iff _ _).mpr other⟩, address, rfl⟩
      · rw [if_pos rfl] at iterated
        cases iterated
        exact .inr ⟨fun advances => fails advances.1, rfl, nonce.symm⟩

/-- A call that does not advance is made again and again. -/
theorem not_returns_of_stuck {start round fuel : Nat} {result : Production}
    (first : FirstPass platform passphrase start round)
    (stuck : ¬Advances platform passphrase start round) (less : self.i < n)
    (nonce : self.nonce = afterRounds 0 start) :
    generateDeterministicAddr platform uninit passphrase n search fuel self ≠
      .ok (some result) := by
  induction fuel generalizing self with
  | zero => exact nofun
  | succ fuel ih =>
      intro returned
      rw [generateDeterministicAddr, if_pos less] at returned
      obtain ⟨found, iterated, returned⟩ := bind_eq_ok.mp returned
      cases found with
      | none => cases returned
      | some next =>
          obtain ⟨rounds, _, other, outcome⟩ := iterate_cases nonce iterated
          obtain rfl := first.eq other
          rcases outcome with ⟨advances, _⟩ | ⟨_, i_eq, nonce_eq⟩
          · exact stuck advances
          · exact ih (i_eq ▸ less) (nonce_eq.trans nonce) returned

/-- What the loop has reached when its calls took the first rounds, each of which loaded. -/
structure Scanned (platform : Platform) (passphrase : UString) (node : Node) (rounds : Nat)
    (state : Production) : Prop where
  nonce_eq : state.nonce = afterRounds 0 rounds
  tried_eq : state.tried = noncesFrom 0 rounds
  i_eq : state.i = Nat.count (PassesAt platform passphrase) rounds
  added_length : state.added.length = state.i
  node_eq : state.node = state.added.foldl Node.addPrivAddr node
  loads : ∀ round < rounds, PassesAt platform passphrase round → LoadsAt platform passphrase round
  moved : rounds = 0 ∨ ∃ round < rounds, PassesAt platform passphrase round ∧
    (round + 1) % 2 ^ 31 ≠ 0

theorem scanned_start (node : Node) : Scanned platform passphrase node 0 (start node) where
  nonce_eq := rfl
  tried_eq := rfl
  i_eq := (Nat.count_zero _).symm
  added_length := rfl
  node_eq := rfl
  loads := fun _ less => absurd less (Nat.not_lt_zero _)
  moved := .inl rfl

/-- An iteration that advances adds its address to those that were scanned. -/
theorem Scanned.advance {rounds more : Nat} {address : Addr}
    (scanned : Scanned platform passphrase node rounds self)
    (first : FirstPass platform passphrase rounds (rounds + more))
    (advances : Advances platform passphrase rounds (rounds + more)) :
    Scanned platform passphrase node (rounds + more + 1) {
      node := self.node.addPrivAddr address
      i := self.i + 1
      nonce := afterRounds 0 (rounds + more + 1)
      iterations := self.iterations + 1
      added := self.added ++ [address]
      tried := self.tried ++ noncesFrom rounds (more + 1) } where
  nonce_eq := rfl
  tried_eq := by
    have append := noncesFrom_append 0 rounds (more + 1)
    rw [Nat.zero_add] at append
    rw [scanned.tried_eq, append, Nat.add_assoc]
  i_eq := by rw [first.count_succ, scanned.i_eq]
  added_length := by rw [List.length_append, scanned.added_length, List.length_singleton]
  node_eq := by rw [List.foldl_append, ← scanned.node_eq, List.foldl_cons, List.foldl_nil]
  loads := by
    intro round less passes
    by_cases low : round < rounds
    · exact scanned.loads round low passes
    · by_cases last : round = rounds + more
      · exact last ▸ advances.1
      · exact absurd passes (first.earlier round (by omega) (by omega))
  moved := by
    rcases scanned.moved with rfl | ⟨round, less, passes, other⟩
    · exact .inr ⟨_, Nat.lt_succ_self _, first.passes, advances.2⟩
    · exact .inr ⟨round, by omega, passes, other⟩

/-- Where the loop ends, it has taken one round after the other. -/
theorem Scanned.of_returns {rounds fuel : Nat} {result : Production}
    (scanned : Scanned platform passphrase node rounds self)
    (returned : generateDeterministicAddr platform uninit passphrase n search fuel self =
      .ok (some result)) :
    ∃ total, Scanned platform passphrase node total result := by
  induction fuel generalizing self rounds with
  | zero => cases returned
  | succ fuel ih =>
      by_cases less : self.i < n
      · have stepped := returned
        rw [generateDeterministicAddr, if_pos less] at stepped
        obtain ⟨found, iterated, stepped⟩ := bind_eq_ok.mp stepped
        cases found with
        | none => cases stepped
        | some next =>
            obtain ⟨more, _, first, outcome⟩ := iterate_cases scanned.nonce_eq iterated
            rcases outcome with ⟨advances, address, rfl⟩ | ⟨stuck, _⟩
            · exact ih (scanned.advance first advances) stepped
            · exact absurd returned (not_returns_of_stuck first stuck less scanned.nonce_eq)
      · rw [generateDeterministicAddr, if_neg less] at returned
        cases returned
        exact ⟨rounds, scanned⟩

/-! ## When it ends -/

/-- An iteration of the loop, by the fuel of its call. -/
def Turn (platform : Platform) (uninit : Nat → Uninit) (passphrase : UString) (n : Nat)
    (self : Production) (search : Nat) (next : Production) : Prop :=
  self.i < n ∧ self.iterate platform uninit passphrase search = .ok (some next)

/-- Every call that the loop comes to returns. -/
def CallsReturn (platform : Platform) (uninit : Nat → Uninit) (passphrase : UString) (n : Nat)
    (node : Node) : Prop :=
  ∀ trace state, Run (Turn platform uninit passphrase n) (start node) trace state → state.i < n →
    ∃ search found, state.call platform uninit passphrase search = .ok (some found)

/-- The loop ends with `n` addresses and has tried no pair of nonces twice. -/
def Produces (platform : Platform) (uninit : Nat → Uninit) (passphrase : UString) (n : Nat)
    (node : Node) : Prop :=
  ∃ search fuel result, generateDeterministicAddr platform uninit passphrase n search fuel
      (start node) = .ok (some result) ∧ result.added.length = n ∧
    result.node = result.added.foldl Node.addPrivAddr node ∧ result.tried.Nodup

/-- There are `n` rounds that end a search before the nonces come round, and `loadKeys`
takes the keys of the first `n`.  A search that ends with the last nonces alone returns the
nonce that it began with. -/
structure FirstLoad (platform : Platform) (passphrase : UString) (n : Nat) : Prop where
  enough : n ≤ Nat.count (PassesAt platform passphrase) (2 ^ 31)
  moved : 0 < n → ∃ round < 2 ^ 31 - 1, PassesAt platform passphrase round
  loads : ∀ round < 2 ^ 31, PassesAt platform passphrase round →
    Nat.count (PassesAt platform passphrase) round < n → LoadsAt platform passphrase round

theorem FirstLoad.of_produces (produces : Produces platform uninit passphrase n node) :
    FirstLoad platform passphrase n := by
  obtain ⟨search, fuel, result, returned, length, _, nodup⟩ := produces
  obtain ⟨total, scanned⟩ := (scanned_start node).of_returns returned
  have short : total ≤ 2 ^ 31 := by
    rw [scanned.tried_eq, noncesFrom_zero] at nodup
    exact (nodup_noncesAt_iff total).mp nodup
  have counted : Nat.count (PassesAt platform passphrase) total = n := by
    rw [← scanned.i_eq, ← scanned.added_length, length]
  constructor
  · exact counted ▸ Nat.count_monotone _ short
  · intro positive
    rcases scanned.moved with rfl | ⟨round, less, passes, other⟩
    · rw [Nat.count_zero] at counted
      omega
    · exact ⟨round, by omega, passes⟩
  · intro round _ passes fewer
    apply scanned.loads round ?_ passes
    by_contra behind
    have more := Nat.count_monotone (PassesAt platform passphrase) (Nat.le_of_not_lt behind)
    omega

/-- Under the condition the next call advances. -/
theorem FirstLoad.exists_advance (firstLoad : FirstLoad platform passphrase n) {rounds : Nat}
    (fewer : Nat.count (PassesAt platform passphrase) rounds < n) :
    ∃ more, rounds + more < 2 ^ 31 ∧ FirstPass platform passphrase rounds (rounds + more) ∧
      Advances platform passphrase rounds (rounds + more) := by
  obtain ⟨round, inside, first⟩ := exists_firstPass (fewer.trans_le firstLoad.enough)
  obtain ⟨more, rfl⟩ := Nat.exists_eq_add_of_le first.start_le
  refine ⟨more, inside, first, firstLoad.loads _ inside first.passes ?_, ?_⟩
  · rw [first.count_eq]
    exact fewer
  · -- only the very first call could come back to the nonce that it began with
    intro same
    obtain ⟨round, low, passes⟩ := firstLoad.moved (Nat.zero_lt_of_lt fewer)
    exact first.earlier round (by omega) (by omega) passes

/-- The rest of the loop, by the number of addresses that are missing. -/
theorem Scanned.returns (firstLoad : FirstLoad platform passphrase n)
    (calls : CallsReturn platform uninit passphrase n node) {missing rounds : Nat}
    {trace : List (Production × Nat)} (scanned : Scanned platform passphrase node rounds self)
    (short : rounds ≤ 2 ^ 31)
    (run : Run (Turn platform uninit passphrase n) (start node) trace self)
    (left : self.i + missing = n) :
    ∃ fuel result total, generateDeterministicAddr platform uninit passphrase n (2 ^ 31) fuel self =
        .ok (some result) ∧ Scanned platform passphrase node total result ∧ total ≤ 2 ^ 31 ∧
      result.i = n := by
  induction missing generalizing self rounds trace with
  | zero =>
      refine ⟨1, self, rounds, ?_, scanned, short, left⟩
      rw [generateDeterministicAddr, if_neg (by omega)]
  | succ missing ih =>
      have less : self.i < n := by omega
      obtain ⟨more, inside, first, advances⟩ := firstLoad.exists_advance (scanned.i_eq ▸ less)
      obtain ⟨search, found, called⟩ := calls trace self run less
      rw [call, scanned.nonce_eq] at called
      obtain ⟨others, enough, other, _⟩ := generateDeterministic_spec called
      obtain rfl := Nat.add_left_cancel (first.eq other)
      rw [first.generate_eq enough (show more < 2 ^ 31 by omega), ← scanned.nonce_eq] at called
      obtain ⟨next, iterated⟩ := exists_iterate called
      obtain ⟨others, _, other, outcome⟩ := iterate_cases scanned.nonce_eq iterated
      obtain rfl := Nat.add_left_cancel (first.eq other)
      rcases outcome with ⟨_, address, rfl⟩ | ⟨stuck, _⟩
      · obtain ⟨fuel, result, total, returned, done⟩ := ih (scanned.advance first advances)
          (Nat.succ_le_of_lt inside) (run.next ⟨less, iterated⟩) (by simp only; omega)
        refine ⟨fuel + 1, result, total, ?_, done⟩
        rw [generateDeterministicAddr, if_pos less, iterated]
        exact returned
      · exact absurd advances stuck

theorem produces_iff (calls : CallsReturn platform uninit passphrase n node) :
    Produces platform uninit passphrase n node ↔ FirstLoad platform passphrase n := by
  constructor
  · exact FirstLoad.of_produces
  · intro firstLoad
    obtain ⟨fuel, result, total, returned, scanned, short, done⟩ :=
      (scanned_start node).returns firstLoad calls (Nat.zero_le _) .nil (Nat.zero_add n)
    refine ⟨2 ^ 31, fuel, result, returned, ?_, scanned.node_eq, ?_⟩
    · rw [scanned.added_length, done]
    · rw [scanned.tried_eq, noncesFrom_zero]
      exact (nodup_noncesAt_iff total).mpr short

/-- For a single address there is only the call from nonce 0, again and again. -/
theorem callsReturn_one
    (returns : ∀ iterations, ∃ search found, (Addr.new (uninit iterations)).generateDeterministic
      platform passphrase search 0 = .ok (some found)) :
    CallsReturn platform uninit passphrase 1 node := by
  intro trace state run less
  have first : state.i = 0 → state.nonce = 0 := by
    refine @Run.state_invariant _ _ _ _ _ _ (fun state => state.i = 0 → state.nonce = 0)
      (fun _ => rfl) ?_ run
    rintro before search after ih ⟨below, iterated⟩ zero
    have nonce : before.nonce = Addr.afterRounds 0 0 := ih (Nat.lt_one_iff.mp below)
    obtain ⟨_, _, _, outcome⟩ := iterate_cases nonce iterated
    rcases outcome with ⟨_, _, rfl⟩ | ⟨_, _, same⟩
    · exact absurd zero (Nat.succ_ne_zero _)
    · exact same.trans nonce
  obtain ⟨search, found, returned⟩ := returns state.iterations
  refine ⟨search, found, ?_⟩
  rw [call, first (Nat.lt_one_iff.mp less), returned]

/-- A call whose value is known to be there. -/
theorem exists_of_isSome {returned : Except Exn (Option (Int32 × Addr))}
    (there : returned.toOption.join.isSome = true) : ∃ found, returned = .ok (some found) := by
  cases returned with
  | error failure => cases there
  | ok value =>
      cases value with
      | none => cases there
      | some found => exact ⟨found, rfl⟩

end Production

open Production

/-- When `generateDeterministicAddr` ends with its addresses. -/
theorem generateDeterministicAddr_produces_iff (platform : Platform) (uninit : Nat → Uninit)
    (passphrase : UString) (n : Nat) (node : Node)
    (calls : CallsReturn platform uninit passphrase n node) :
    Produces platform uninit passphrase n node ↔ FirstLoad platform passphrase n :=
  produces_iff calls

theorem generateDeterministicAddr_produces_iff_sample :
    Produces wideRounds (fun _ => ⟨0, 0, 0, 0⟩) [1] 1 Node.new := by
  have calls : CallsReturn wideRounds (fun _ => ⟨0, 0, 0, 0⟩) [1] 1 Node.new :=
    callsReturn_one fun _ => ⟨1, exists_of_isSome (by decide +kernel)⟩
  have passes : Addr.PassesAt wideRounds [1] 0 := by decide +kernel
  refine (generateDeterministicAddr_produces_iff _ _ _ _ _ calls).mpr ⟨?_, ?_, ?_⟩
  · exact Nat.succ_le_of_lt (Nat.zero_lt_of_lt (Nat.count_strict_mono passes (by decide)))
  · exact fun _ => ⟨0, by decide, passes⟩
  · intro round _ _ fewer
    have zero : round = 0 := by
      by_contra behind
      have more := Nat.count_strict_mono passes (Nat.pos_of_ne_zero behind)
      omega
    subst zero
    constructor <;> decide +kernel

/-- A passphrase whose first round has an encryption key of 31 bytes. -/
theorem not_generateDeterministicAddr_produces :
    CallsReturn zeroFirst (fun _ => ⟨0, 0, 0, 0⟩) [1] 1 Node.new ∧
      ¬Produces zeroFirst (fun _ => ⟨0, 0, 0, 0⟩) [1] 1 Node.new := by
  have calls : CallsReturn zeroFirst (fun _ => ⟨0, 0, 0, 0⟩) [1] 1 Node.new :=
    callsReturn_one fun _ => ⟨1, exists_of_isSome (by decide +kernel)⟩
  refine ⟨calls, fun produces => ?_⟩
  have loads := ((produces_iff calls).mp produces).loads 0 (by decide) (by decide +kernel)
    (by decide)
  exact absurd loads.privE_size (by decide +kernel)

end BitMRC

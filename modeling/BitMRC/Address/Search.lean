import BitMRC.Address.FailedLoads
import BitMRC.Address.KeyWidth
import BitMRC.Crypto.Sample

/-!
# What the generators search for

`generateRandom` tests the digest of the keys as they are serialised, the address is made
of the keys as they are stored; `generateDeterministic` tests the digest of SHA-512
instead of that of RIPEMD-160.  The hash functions are taken as any functions.
-/

namespace BitMRC

open Foundation UString

/-- The library with other hash functions. -/
def Platform.withHashes (platform : Platform) (sha512 : UString → Block 64)
    (ripemd160 : UString → Block 20) : Platform := { platform with sha512, ripemd160 }

variable {platform : Platform}

namespace Addr

open PubAddr

/-! ## `loadKeys` on serialised keys -/

section Serialised

variable {lead : UString}

theorem not_wrongPrefix (form : lead = [] ∨ lead = [4]) (point : Point) :
    ¬WrongPrefix (lead ++ point.minimal) := by
  have x := minEncodedSize_le point.x_lt
  have y := minEncodedSize_le point.y_lt
  have length := point.minimal_length
  rintro ⟨long, other⟩
  rcases form with rfl | rfl
  · rw [List.nil_append] at long
    omega
  · exact other rfl

/-- The prefix is there or put in front, unless the key is dropped. -/
theorem withPrefix_keptKey (key : UString) : withPrefix (keptKey key) = keptKey key := by
  have length : (keptKey key).length ≠ 64 := by
    unfold keptKey storedKey
    split
    next plain => simp [plain]
    split
    next prefixed =>
      split
      next => simp [prefixed]
      next => simp
    next => simp
  rw [withPrefix, if_neg length]

/-- What the address of serialised keys is made of. -/
def storedText (platform : Platform) (lead : UString) (pair : Nat × Nat) : UString :=
  keptKey (lead ++ (platform.publicPoint pair.2).minimal) ++
    keptKey (lead ++ (platform.publicPoint pair.1).minimal)

theorem keyDigest_stored (platform : Platform) (lead : UString) (pair : Nat × Nat) :
    keyDigest platform (keptKey (lead ++ (platform.publicPoint pair.2).minimal))
        (keptKey (lead ++ (platform.publicPoint pair.1).minimal)) =
      platform.ripemd160 (platform.sha512 (storedText platform lead pair)).toUString := by
  rw [keyDigest, withPrefix_keptKey, withPrefix_keptKey, storedText]

/-- A call that returns true stores the keys as `loadKeys` keeps them. -/
theorem loadKeys_serialised (form : lead = [] ∨ lead = [4]) {self own : Addr}
    {pair : Nat × Nat} {stream version : Int32}
    (load : self.loadKeys platform (lead ++ (platform.publicPoint pair.1).minimal)
      (lead ++ (platform.publicPoint pair.2).minimal) (privText pair.1) (privText pair.2) stream
      version = .ok (true, own)) :
    minEncodedSize pair.1 = 32 ∧ minEncodedSize pair.2 = 32 ∧
      own.privEncryptionKey = privText pair.1 ∧ own.privSigningKey = privText pair.2 ∧
      keyDigest platform own.pubSigningKey own.pubEncryptionKey =
        platform.ripemd160 (platform.sha512 (storedText platform lead pair)).toUString := by
  rcases loadKeys_cases load with ⟨wrong, _⟩ | ⟨kept, address, base, stored, _, _, rfl⟩
  · cases wrong
  · obtain ⟨_, _, _, _, privE32, privS32, _, _⟩ := storeKeys_eq_true stored
    have right : RightForm (lead ++ (platform.publicPoint pair.1).minimal)
        (lead ++ (platform.publicPoint pair.2).minimal) (privText pair.1) (privText pair.2) :=
      ⟨not_wrongPrefix form _, not_wrongPrefix form _, privE32, privS32⟩
    cases (right.storeKeys_eq self).symm.trans stored
    rw [privText_length] at privE32 privS32
    exact ⟨privE32, privS32, rfl, rfl, keyDigest_stored platform lead pair⟩

/-- With private keys of 32 bytes and a digest that is long enough the call returns true. -/
theorem exists_loadKeys_serialised (form : lead = [] ∨ lead = [4]) (self : Addr)
    {pair : Nat × Nat} (stream version : Int32) (privE_size : minEncodedSize pair.1 = 32)
    (privS_size : minEncodedSize pair.2 = 32)
    (long : 4 ≤ ((platform.ripemd160 (platform.sha512
      (storedText platform lead pair)).toUString).toUString.dropWhile (· = 0)).length) :
    ∃ own, self.loadKeys platform (lead ++ (platform.publicPoint pair.1).minimal)
      (lead ++ (platform.publicPoint pair.2).minimal) (privText pair.1) (privText pair.2) stream
      version = .ok (true, own) := by
  have right : RightForm (lead ++ (platform.publicPoint pair.1).minimal)
      (lead ++ (platform.publicPoint pair.2).minimal) (privText pair.1) (privText pair.2) :=
    ⟨not_wrongPrefix form _, not_wrongPrefix form _, (privText_length _).trans privE_size,
      (privText_length _).trans privS_size⟩
  have loads : LoadsBack platform (lead ++ (platform.publicPoint pair.1).minimal)
      (lead ++ (platform.publicPoint pair.2).minimal) := by
    rw [LoadsBack, keyDigest_stored]
    exact long
  have nonzero : (keyDigest platform (keptKey (lead ++ (platform.publicPoint pair.2).minimal))
      (keptKey (lead ++ (platform.publicPoint pair.1).minimal))).toUString.dropWhile (· = 0) ≠
        [] := by
    intro zero
    rw [LoadsBack, zero] at loads
    exact absurd loads (by decide)
  obtain ⟨address, built⟩ := exists_buildAddress stream version nonzero
  exact ⟨_, (right.loadKeys_eq self stream version).mpr
    ⟨address, built, (decide_eq_true loads).symm, rfl⟩⟩

end Serialised

/-! ## `generateRandom` -/

/-- What `generateRandom` hashes of a pair of exponents. -/
def randomText (platform : Platform) (pair : Nat × Nat) : UString :=
  (4 :: (platform.publicPoint pair.2).minimal) ++ (4 :: (platform.publicPoint pair.1).minimal)

/-- It is what the address is made of at full width only. -/
theorem storedText_eq_iff (pair : Nat × Nat) :
    storedText platform [4] pair = randomText platform pair ↔
      (platform.publicPoint pair.1).FullWidth ∧ (platform.publicPoint pair.2).FullWidth := by
  have kept {point : Point} (full : point.FullWidth) :
      keptKey ([4] ++ point.minimal) = 4 :: point.minimal := by
    have length := (Point.fullWidth_iff point).mp full
    simp [keptKey, storedKey, length]
  have length (point : Point) : (keptKey ([4] ++ point.minimal)).length =
      if point.minimal.length = 64 ∨ point.minimal.length = 63 then 65 else 0 := by
    unfold keptKey storedKey
    simp only [List.length_append, List.length_singleton]
    split
    next plain =>
      have short : point.minimal.length = 63 := by omega
      simp [short]
    next =>
      split
      next prefixed =>
        have long : point.minimal.length = 64 := by omega
        simp [long]
      next =>
        have other : ¬(point.minimal.length = 64 ∨ point.minimal.length = 63) := by omega
        simp [other]
  have bounds (point : Point) : 2 ≤ point.minimal.length ∧ point.minimal.length ≤ 64 := by
    have x := minEncodedSize_le point.x_lt
    have y := minEncodedSize_le point.y_lt
    rw [Point.minimal_length]
    unfold minEncodedSize at *
    omega
  constructor
  · intro same
    have total := congrArg List.length same
    have boundsE := bounds (platform.publicPoint pair.1)
    have boundsS := bounds (platform.publicPoint pair.2)
    rw [storedText, List.length_append, length, length, randomText, List.length_append,
      List.length_cons, List.length_cons] at total
    rw [Point.fullWidth_iff, Point.fullWidth_iff]
    split at total <;> split at total <;> omega
  · rintro ⟨encryption, signing⟩
    rw [storedText, kept encryption, kept signing, randomText]

/-- Whatever the hash functions, an address that `generateRandom` returns with true has a
ripe that begins with a zero byte. -/
def RandomSearches (self : Addr) (platform : Platform) (draws : List (Nat × Nat)) : Prop :=
  ∀ (sha512 : UString → Block 64) (ripemd160 : UString → Block 20) (own : Addr),
    self.generateRandom (platform.withHashes sha512 ripemd160) draws = .ok (some (true, own)) →
      (keyDigest (platform.withHashes sha512 ripemd160) own.pubSigningKey
        own.pubEncryptionKey).toUString.head? = some 0

/-- A pair with private keys of 32 bytes that no earlier pair hides has both points at full
width. -/
def RandomWide (platform : Platform) (draws : List (Nat × Nat)) : Prop :=
  ∀ before pair after, draws = before ++ pair :: after →
    (∀ earlier ∈ before, randomText platform earlier ≠ randomText platform pair) →
    minEncodedSize pair.1 = 32 → minEncodedSize pair.2 = 32 →
      (platform.publicPoint pair.1).FullWidth ∧ (platform.publicPoint pair.2).FullWidth

/-- Without a digest that begins with a zero byte the draws do not suffice. -/
theorem generateRandom_none (self : Addr) {draws : List (Nat × Nat)}
    (missing : draws.find? (fun pair => (randomDigest platform pair).head? = some 0) = none) :
    self.generateRandom platform draws = .ok none := by
  induction draws with
  | nil => rfl
  | cons drawn draws ih =>
      simp only [List.find?_eq_none, List.mem_cons, forall_eq_or_imp] at missing
      have other : (randomDigest platform drawn).head? ≠ some 0 := by simpa using missing.1
      rw [generateRandom_cons, if_neg other]
      exact ih (List.find?_eq_none.mpr missing.2)

/-- A run that returns an address loaded the first pair whose digest begins with zero. -/
theorem generateRandom_eq_some {self own : Addr} {draws : List (Nat × Nat)} {loaded : Bool}
    (generated : self.generateRandom platform draws = .ok (some (loaded, own))) :
    ∃ pair, draws.find? (fun pair => (randomDigest platform pair).head? = some 0) = some pair ∧
      self.loadKeys platform ([4] ++ (platform.publicPoint pair.1).minimal)
        ([4] ++ (platform.publicPoint pair.2).minimal) (privText pair.1) (privText pair.2) 1 4 =
          .ok (loaded, own) := by
  cases found : draws.find? (fun pair => (randomDigest platform pair).head? = some 0) with
  | none =>
      rw [generateRandom_none self found] at generated
      cases generated
  | some pair =>
      rw [generateRandom_find self found] at generated
      obtain ⟨_, _, generated⟩ := bind_eq_ok.mp generated
      obtain ⟨result, load, same⟩ := bind_eq_ok.mp generated
      cases same
      exact ⟨pair, rfl, load⟩

/-- At full width the search does test the digest of the address. -/
theorem head_of_fullWidth {self own : Addr} {draws : List (Nat × Nat)}
    (generated : self.generateRandom platform draws = .ok (some (true, own)))
    (full : own.FullWidthKeys platform) :
    (keyDigest platform own.pubSigningKey own.pubEncryptionKey).toUString.head? = some 0 := by
  obtain ⟨pair, found, load⟩ := generateRandom_eq_some generated
  obtain ⟨_, _, privE, privS, digest⟩ := loadKeys_serialised (.inr rfl) load
  rw [FullWidthKeys, privE, privS, beNat_privText, beNat_privText] at full
  have first : (randomDigest platform pair).head? = some 0 := by
    simpa using List.find?_some found
  rw [digest, (storedText_eq_iff pair).mpr full]
  exact first

/-! ### Hash functions that tell the texts apart -/

/-- A digest of 20 bytes with this one in front. -/
def digestFrom (first : UInt8) : Block 20 := ⟨first :: List.replicate 19 1, rfl⟩

/-- A function with one value at a text and another one elsewhere. -/
def markText (text : UString) (data : UString) : Block 64 :=
  Platform.fit 64 (if data = text then [0] else [1])

def markDigest (data : UString) : Block 20 :=
  digestFrom (if data.head? = some 0 then 0 else 1)

theorem markDigest_markText (text data : UString) :
    markDigest (markText text data).toUString = digestFrom (if data = text then 0 else 1) := by
  unfold markText
  by_cases same : data = text
  · rw [if_pos same, if_pos same]
    rfl
  · rw [if_neg same, if_neg same]
    rfl

/-- The library with hash functions for which of all texts only the one that is tested of
this pair has a digest that begins with a zero byte. -/
def marking (platform : Platform) (pair : Nat × Nat) : Platform :=
  platform.withHashes (markText (randomText platform pair)) markDigest

theorem marking_digest (pair : Nat × Nat) (data : UString) :
    (marking platform pair).ripemd160 ((marking platform pair).sha512 data).toUString =
      digestFrom (if data = randomText platform pair then 0 else 1) :=
  markDigest_markText _ data

theorem randomDigest_marking (pair other : Nat × Nat) :
    randomDigest (marking platform pair) other =
      (digestFrom (if randomText platform other = randomText platform pair then 0
        else 1)).toUString :=
  congrArg Block.toUString (marking_digest pair (randomText platform other))

/-- With these hash functions the search ends with the pair, and its keys are loaded. -/
theorem exists_generateRandom_marking (self : Addr) {before after : List (Nat × Nat)}
    {pair : Nat × Nat}
    (fresh : ∀ other ∈ before, randomText platform other ≠ randomText platform pair)
    (privE_size : minEncodedSize pair.1 = 32) (privS_size : minEncodedSize pair.2 = 32) :
    ∃ own, self.generateRandom (marking platform pair) (before ++ pair :: after) =
        .ok (some (true, own)) ∧
      keyDigest (marking platform pair) own.pubSigningKey own.pubEncryptionKey =
        digestFrom (if storedText platform [4] pair = randomText platform pair then 0 else 1) := by
  have tested (other : Nat × Nat) : (randomDigest (marking platform pair) other).head? =
      some (if randomText platform other = randomText platform pair then 0 else 1) := by
    rw [randomDigest_marking]
    rfl
  have found : (before ++ pair :: after).find?
      (fun other => (randomDigest (marking platform pair) other).head? = some 0) = some pair := by
    rw [List.find?_eq_some_iff_append]
    refine ⟨by simp [tested], before, after, rfl, ?_⟩
    intro earlier member
    simp [tested, fresh earlier member]
  have long : 4 ≤ (((marking platform pair).ripemd160 ((marking platform pair).sha512
      (storedText (marking platform pair) [4] pair)).toUString).toUString.dropWhile
        (· = 0)).length := by
    rw [marking_digest]
    split
    · decide
    · decide
  obtain ⟨own, load⟩ := @exists_loadKeys_serialised (marking platform pair) [4] (.inr rfl) self
    pair 1 4 privE_size privS_size long
  have kept : ∃ byte ∈ randomDigest (marking platform pair) pair, byte ≠ 0 := by
    refine ⟨1, ?_, by decide⟩
    rw [randomDigest_marking, if_pos rfl]
    decide
  obtain ⟨count, zeros⟩ := leadingZeros_pos (by simp [tested]) kept
  refine ⟨own, ?_, ?_⟩
  · rw [generateRandom_find self found, zeros, load]
    rfl
  · obtain ⟨_, _, _, _, ripe⟩ := loadKeys_serialised (.inr rfl) load
    rw [ripe, marking_digest]
    rfl

theorem randomSearches_iff (self : Addr) (draws : List (Nat × Nat)) :
    self.RandomSearches platform draws ↔ RandomWide platform draws := by
  constructor
  · rintro searches before pair after rfl fresh privE_size privS_size
    obtain ⟨own, generated, ripe⟩ :=
      exists_generateRandom_marking self fresh privE_size privS_size
    have first := searches _ _ own generated
    have stored : storedText platform [4] pair = randomText platform pair := by
      by_contra other
      rw [if_neg other] at ripe
      exact absurd ((congrArg (fun block => (Block.toUString block).head?) ripe).symm.trans first)
        (by decide)
    exact (storedText_eq_iff pair).mp stored
  · intro wide sha512 ripemd160 own generated
    obtain ⟨pair, found, load⟩ := generateRandom_eq_some generated
    obtain ⟨privE_size, privS_size, _, _, digest⟩ := loadKeys_serialised (.inr rfl) load
    obtain ⟨first, before, after, split, earlier⟩ := List.find?_eq_some_iff_append.mp found
    have full := wide before pair after split (fun other member same => by
      have hidden := earlier other member
      have equal : randomDigest (platform.withHashes sha512 ripemd160) other =
          randomDigest (platform.withHashes sha512 ripemd160) pair :=
        congrArg (fun text => (ripemd160 (sha512 text).toUString).toUString) same
      rw [equal, first] at hidden
      cases hidden) privE_size privS_size
    have stored : storedText (platform.withHashes sha512 ripemd160) [4] pair =
        randomText platform pair := (storedText_eq_iff pair).mpr full
    have zero : (randomDigest (platform.withHashes sha512 ripemd160) pair).head? = some 0 := by
      simpa using first
    rw [digest, stored]
    exact zero

/-! ## `generateDeterministic` -/

/-- Whatever RIPEMD-160 is, an address that `generateDeterministic` loads with keys at full
width has a ripe that begins with a zero byte. -/
def DeterministicSearches (self : Addr) (platform : Platform) (passphrase : UString)
    (nonce : Int32) : Prop :=
  ∀ (ripemd160 : UString → Block 20) (fuel : Nat) (next : Int32) (own : Addr),
    let hashed := platform.withHashes platform.sha512 ripemd160
    self.generateDeterministic hashed passphrase fuel nonce = .ok (some (next, own)) →
      own.Loaded hashed → own.FullWidthKeys hashed →
        (keyDigest hashed own.pubSigningKey own.pubEncryptionKey).toUString.head? = some 0

/-- The first round that the search takes has private keys of 32 bytes and points at full
width. -/
structure WideRound (platform : Platform) (passphrase : UString) (nonce : Int32) (round : Nat) :
    Prop where
  earlier : ∀ before < round, (deterministicDigest platform
    (roundPair platform passphrase nonce (nonce + 1) before)).head? ≠ some 0
  first : (deterministicDigest platform
    (roundPair platform passphrase nonce (nonce + 1) round)).head? = some 0
  kept : ∃ byte ∈ deterministicDigest platform
    (roundPair platform passphrase nonce (nonce + 1) round), byte ≠ 0
  privE_size : minEncodedSize (roundPair platform passphrase nonce (nonce + 1) round).1 = 32
  privS_size : minEncodedSize (roundPair platform passphrase nonce (nonce + 1) round).2 = 32
  encryption : (platform.publicPoint
    (roundPair platform passphrase nonce (nonce + 1) round).1).FullWidth
  signing : (platform.publicPoint
    (roundPair platform passphrase nonce (nonce + 1) round).2).FullWidth

/-- What the search returns is the first round whose digest begins with a zero byte. -/
theorem searchDeterministic_eq_some {passphrase : UString} {fuel : Nat}
    {signNonce encNonce next : Int32} {pair : Nat × Nat}
    (searched : searchDeterministic platform passphrase fuel signNonce encNonce =
      .ok (some (pair.1, pair.2, next))) :
    ∃ round < fuel, pair = roundPair platform passphrase signNonce encNonce round ∧
      next = afterRounds signNonce round + 2 ∧
      (∀ before < round, (deterministicDigest platform
        (roundPair platform passphrase signNonce encNonce before)).head? ≠ some 0) ∧
      (deterministicDigest platform pair).head? = some 0 ∧
      ∃ byte ∈ deterministicDigest platform pair, byte ≠ 0 := by
  induction fuel generalizing signNonce encNonce with
  | zero => cases searched
  | succ fuel ih =>
      rw [searchDeterministic_succ] at searched
      by_cases first : (deterministicDigest platform
          (passphrasePair platform passphrase signNonce encNonce)).head? = some 0
      · rw [if_pos first] at searched
        by_cases kept : ∃ byte ∈ deterministicDigest platform
            (passphrasePair platform passphrase signNonce encNonce), byte ≠ 0
        · obtain ⟨count, zeros⟩ := leadingZeros_pos first kept
          rw [zeros] at searched
          cases pair
          cases searched
          exact ⟨0, Nat.succ_pos _, rfl, rfl, fun _ less => absurd less (Nat.not_lt_zero _),
            first, kept⟩
        · rw [leadingZeros_undefined kept] at searched
          cases searched
      · rw [if_neg first] at searched
        obtain ⟨round, inside, derived, nextEq, earlier, found⟩ := ih searched
        refine ⟨round + 1, Nat.succ_lt_succ inside, derived, nextEq, ?_, found⟩
        intro before less
        cases before with
        | zero => exact first
        | succ before => exact earlier before (Nat.lt_of_succ_lt_succ less)

/-- A private exponent of 32 bytes. -/
theorem lt_of_minEncodedSize {n : Nat} (size : minEncodedSize n = 32) : n < 256 ^ 32 := by
  have small := lt_minEncodedSize n
  rwa [size] at small

theorem Serialised.fullWidthKeys {privE privS : Nat} {own : Addr}
    (keys : own.Serialised platform privE privS) (privE_size : minEncodedSize privE = 32)
    (privS_size : minEncodedSize privS = 32) (encryption : (platform.publicPoint privE).FullWidth)
    (signing : (platform.publicPoint privS).FullWidth) : own.FullWidthKeys platform := by
  rw [FullWidthKeys, keys.privEncryption_eq, keys.privSigning_eq, beNat_beBytes, beNat_beBytes,
    Nat.mod_eq_of_lt (lt_of_minEncodedSize privE_size),
    Nat.mod_eq_of_lt (lt_of_minEncodedSize privS_size)]
  exact ⟨encryption, signing⟩

/-- A loaded address holds the private keys that it was given. -/
theorem Loaded.private_eq {self own : Addr} {pubE pubS privE privS : UString}
    {stream version : Int32} {flag : Bool}
    (load : self.loadKeys platform pubE pubS privE privS stream version = .ok (flag, own))
    (loaded : own.Loaded platform) :
    own.privEncryptionKey = privE ∧ own.privSigningKey = privS ∧ privE.length = 32 ∧
      privS.length = 32 := by
  have length := loaded.consistent.privSigning_length
  obtain ⟨base, rfl⟩ := loadKeys_base load
  have stored := storeKeys_of_signing (List.ne_nil_of_length_pos (by rw [length]; decide))
  obtain ⟨_, _, privE_eq, privS_eq, privE32, privS32, _, _⟩ :=
    storeKeys_eq_true (Prod.ext stored rfl)
  exact ⟨privE_eq, privS_eq, privE32, privS32⟩

/-- The digest that the address is made of is not looked at, so that it is only by chance
that it begins with a zero byte. -/
theorem deterministicSearches_iff (self : Addr) (passphrase : UString) (nonce : Int32) :
    self.DeterministicSearches platform passphrase nonce ↔
      ¬∃ round, WideRound platform passphrase nonce round := by
  constructor
  · rintro searches ⟨round, wide⟩
    let hashed := platform.withHashes platform.sha512 fun _ => digestFrom 1
    have whole : Wide hashed (roundPair platform passphrase nonce (nonce + 1) round).1
        (roundPair platform passphrase nonce (nonce + 1) round).2 :=
      ⟨wide.encryption, wide.signing, wide.privE_size, wide.privS_size,
        show 4 ≤ ((digestFrom 1).toUString.dropWhile (· = 0)).length by decide⟩
    obtain ⟨own, generated, loaded, keys⟩ :=
      (@generateDeterministic_iff hashed self passphrase nonce round (round + 1) _ _
        (Nat.lt_succ_self round) wide.earlier rfl wide.first).mpr ⟨whole, wide.kept⟩
    have full := keys.fullWidthKeys wide.privE_size wide.privS_size wide.encryption wide.signing
    have first : (digestFrom 1).toUString.head? = some 0 :=
      searches _ _ _ own generated loaded full
    exact absurd first (by decide)
  · intro none ripemd160 fuel next own hashed generated loaded full
    refine absurd ?_ none
    obtain ⟨privE, privS, signNonce, _, searched, load, _⟩ :=
      generateDeterministic_eq_some generated
    obtain ⟨round, _, derived, _, earlier, first, kept⟩ :=
      @searchDeterministic_eq_some hashed passphrase fuel nonce (nonce + 1) signNonce
        (privE, privS) searched
    obtain ⟨privE_eq, privS_eq, privE32, privS32⟩ := loaded.private_eq load
    rw [privText_length] at privE32 privS32
    rw [FullWidthKeys, privE_eq, privS_eq, beNat_privText, beNat_privText] at full
    have pair : (privE, privS) = roundPair platform passphrase nonce (nonce + 1) round := derived
    refine ⟨round, ⟨earlier, ?_, ?_, ?_, ?_, ?_, ?_⟩⟩ <;> rw [← pair]
    · exact first
    · exact kept
    · exact privE32
    · exact privS32
    · exact full.1
    · exact full.2

end Addr

/-- What the generators search for: `generateRandom` for an address whose ripe begins with
a zero byte where the keys are at full width, `generateDeterministic` for something else. -/
theorem generators_search_iff (platform : Platform) (self : Addr) :
    (∀ draws, self.RandomSearches platform draws ↔ Addr.RandomWide platform draws) ∧
      (∀ (draws : List (Nat × Nat)) (own : Addr),
        self.generateRandom platform draws = .ok (some (true, own)) →
          own.FullWidthKeys platform →
            (keyDigest platform own.pubSigningKey own.pubEncryptionKey).toUString.head? =
              some 0) ∧
      ∀ (passphrase : UString) (nonce : Int32),
        self.DeterministicSearches platform passphrase nonce ↔
          ¬∃ round, Addr.WideRound platform passphrase nonce round :=
  ⟨self.randomSearches_iff, fun _ _ => Addr.head_of_fullWidth, self.deterministicSearches_iff⟩

theorem generators_search_iff_sample :
    ∃ own, (Addr.new ⟨0, 0, 0, 0⟩).generateRandom zeroFirst [(2 ^ 255, 2 ^ 255 + 1)] =
        .ok (some (true, own)) ∧
      (keyDigest zeroFirst own.pubSigningKey own.pubEncryptionKey).toUString.head? = some 0 := by
  have wide : Addr.Wide zeroFirst (2 ^ 255) (2 ^ 255 + 1) := by
    constructor <;> decide +kernel
  obtain ⟨own, generated, keys⟩ := (Addr.generateRandom_iff (Addr.new ⟨0, 0, 0, 0⟩)
    (show List.find? (fun pair => (Addr.randomDigest zeroFirst pair).head? = some 0)
      [(2 ^ 255, 2 ^ 255 + 1)] = some (2 ^ 255, 2 ^ 255 + 1) by decide +kernel)).mpr wide
  exact ⟨own, generated, (generators_search_iff zeroFirst (Addr.new ⟨0, 0, 0, 0⟩)).2.1 _ own
    generated (keys.fullWidthKeys wide.privE_size wide.privS_size wide.encryption wide.signing)⟩

/-- A platform on which the first round of every passphrase is a wide one. -/
def wideRounds : Platform :=
  { Platform.sample with
    sha512 := fun data => Platform.fit 64 ((if data.length = 128 then 0 else 255) :: data) }

/-- A pair with a second coordinate of 31 bytes, and a passphrase. -/
theorem not_generators_search :
    ¬(Addr.new ⟨0, 0, 0, 0⟩).RandomSearches shortPlatform [(shortScalar, 2 ^ 255)] ∧
      ¬(Addr.new ⟨0, 0, 0, 0⟩).DeterministicSearches wideRounds [1] 0 := by
  constructor
  · intro searches
    have wide := ((Addr.new ⟨0, 0, 0, 0⟩).randomSearches_iff _).mp searches [] _ [] rfl
      (fun _ member => absurd member List.not_mem_nil) (by decide +kernel) (by decide +kernel)
    exact absurd wide.1 (by decide +kernel)
  · intro searches
    refine ((Addr.new ⟨0, 0, 0, 0⟩).deterministicSearches_iff _ _).mp searches ⟨0, ?_⟩
    constructor
    · exact fun _ less => absurd less (Nat.not_lt_zero _)
    · decide +kernel
    · decide +kernel
    · decide +kernel
    · decide +kernel
    · decide +kernel
    · decide +kernel

end BitMRC

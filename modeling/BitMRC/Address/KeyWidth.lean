import BitMRC.Address.Generate

/-!
# The width of serialised keys

Coordinates and exponents are written with `MinEncodedSize` bytes, so that leading zero
bytes are lost, while `loadKeys` tells the forms of a key apart by their length alone.
This module says for which scalars the keys come out at full width.
-/

namespace BitMRC

open Foundation UString

variable {platform : Platform}

/-! ## Points -/

theorem Point.minimal_length (point : Point) : point.minimal.length =
    minEncodedSize point.x + minEncodedSize point.y := by
  simp [Point.minimal]

theorem Point.fullWidth_iff (point : Point) : point.FullWidth ↔ point.minimal.length = 64 := by
  have x := minEncodedSize_le point.x_lt
  have y := minEncodedSize_le point.y_lt
  rw [Point.minimal_length, Point.FullWidth]
  omega

theorem Point.FullWidth.minimal_eq {point : Point} (full : point.FullWidth) :
    point.minimal = point.coordinates := by
  rw [Point.minimal, full.1, full.2, Point.coordinates]

/-- Written with one byte more than it needs, a coordinate begins with a zero. -/
theorem beBytes_of_short {n : Nat} (short : minEncodedSize n = 31) :
    beBytes 32 n = 0 :: beBytes 31 n := by
  have small := lt_minEncodedSize n
  rw [short] at small
  exact beBytes_of_lt small 1

/-- A public key that lost one byte is not made good by a second prefix. -/
theorem Point.cons_minimal_ne {point : Point} (short : point.minimal.length = 63) :
    4 :: point.minimal ≠ point.coordinates := by
  intro same
  have x := minEncodedSize_le point.x_lt
  have y := minEncodedSize_le point.y_lt
  rw [Point.minimal_length] at short
  rw [Point.minimal, Point.coordinates] at same
  by_cases left : minEncodedSize point.x = 31
  · rw [left, beBytes_of_short left] at same
    exact absurd (List.cons.inj same).1 (by decide)
  · have full : minEncodedSize point.x = 32 := by omega
    have right : minEncodedSize point.y = 31 := by omega
    rw [full, right, beBytes_of_short right] at same
    -- the coordinate would be its own shift by one byte
    have count := congrArg (List.count 4) same
    simp only [List.count_cons, List.count_append] at count
    simp at count

/-- A key of 65 bytes was stored as it is, or is one of 64 bytes behind its prefix. -/
theorem PubAddr.storedKey_cases {key stored : UString} (found : storedKey key = some stored)
    (long : stored.length = 65) :
    key.length = 64 ∧ stored = 4 :: key ∨ key.length = 65 ∧ stored = key := by
  rw [storedKey] at found
  split at found
  next plain => exact .inl ⟨plain, (Option.some.inj found).symm⟩
  next =>
    split at found
    next prefixed =>
      split at found
      next => exact .inr ⟨prefixed, (Option.some.inj found).symm⟩
      next => cases found
    next =>
      cases found
      cases long

/-- `loadKeys` stores what it is given, with the prefix or without, as the 65 bytes of the
point if and only if both coordinates are at full width. -/
theorem Point.storedKey_iff (point : Point) {lead : UString} (form : lead = [] ∨ lead = [4]) :
    PubAddr.storedKey (lead ++ point.minimal) = some point.encode.toUString ↔
      point.FullWidth := by
  have x := minEncodedSize_le point.x_lt
  have y := minEncodedSize_le point.y_lt
  have length := point.minimal_length
  constructor
  · intro stored
    rw [point.fullWidth_iff]
    rcases form with rfl | rfl
    · rcases PubAddr.storedKey_cases stored point.encode.toUString_length with
        ⟨plain, _⟩ | ⟨long, _⟩
      · exact plain
      · rw [List.nil_append] at long
        omega
    · rcases PubAddr.storedKey_cases stored point.encode.toUString_length with
        ⟨plain, twice⟩ | ⟨prefixed, _⟩
      · have short : point.minimal.length = 63 := Nat.succ.inj plain
        exact absurd (List.cons.inj twice).2.symm (Point.cons_minimal_ne short)
      · exact Nat.succ.inj prefixed
  · intro full
    rw [full.minimal_eq]
    rcases form with rfl | rfl
    · simp [PubAddr.storedKey, Point.encode, Block.toUString]
    · simp [PubAddr.storedKey, Point.encode, Block.toUString]

/-! ## Private exponents -/

theorem privText_length (exponent : Nat) : (privText exponent).length = minEncodedSize exponent :=
  beBytes_length _ _

theorem privText_eq {exponent : Nat} (full : minEncodedSize exponent = 32) :
    privText exponent = beBytes 32 exponent := by
  rw [privText, full]

/-- `getPubOfPriv` of the 32 bytes of a scalar. -/
theorem getPubOfPriv_beBytes {scalar : Nat} (small : scalar < 256 ^ 32) :
    getPubOfPriv platform (beBytes 32 scalar) = [4] ++ (platform.publicPoint scalar).minimal := by
  rw [getPubOfPriv, beNat_beBytes, Nat.mod_eq_of_lt small]
  rfl

theorem getPubOfPriv_privText (exponent : Nat) :
    getPubOfPriv platform (privText exponent) =
      [4] ++ (platform.publicPoint exponent).minimal := by
  rw [getPubOfPriv, beNat_privText]
  rfl

theorem getPubOfPriv_eq_iff {scalar : Nat} (small : scalar < 256 ^ 32) :
    getPubOfPriv platform (beBytes 32 scalar) = (platform.publicPoint scalar).encode.toUString ↔
      (platform.publicPoint scalar).FullWidth := by
  rw [getPubOfPriv_beBytes small]
  constructor
  · intro same
    have length := congrArg List.length same
    rw [Block.toUString_length] at length
    exact (Point.fullWidth_iff _).mpr (Nat.succ.inj length)
  · intro full
    rw [full.minimal_eq]
    rfl

/-! ## `loadKeys` -/

namespace Addr

/-- The address holds the keys of these two scalars at full width. -/
structure Serialised (platform : Platform) (privE privS : Nat) (own : Addr) : Prop where
  pubEncryption_eq : own.pubEncryptionKey = (platform.publicPoint privE).encode.toUString
  pubSigning_eq : own.pubSigningKey = (platform.publicPoint privS).encode.toUString
  privEncryption_eq : own.privEncryptionKey = beBytes 32 privE
  privSigning_eq : own.privSigningKey = beBytes 32 privS

/-- No coordinate and no scalar begins with a zero byte, and the digest of the public keys
begins with at most 16 of them. -/
structure Wide (platform : Platform) (privE privS : Nat) : Prop where
  encryption : (platform.publicPoint privE).FullWidth
  signing : (platform.publicPoint privS).FullWidth
  privE_size : minEncodedSize privE = 32
  privS_size : minEncodedSize privS = 32
  digest : 4 ≤ ((keyDigest platform (platform.publicPoint privS).encode.toUString
    (platform.publicPoint privE).encode.toUString).toUString.dropWhile (· = 0)).length

/-- Only the form in which a key is stored matters. -/
theorem loadKeys_congr {self : Addr} {pubE pubE' pubS pubS' : UString}
    (encryption : PubAddr.storedKey pubE = PubAddr.storedKey pubE')
    (signing : PubAddr.storedKey pubS = PubAddr.storedKey pubS') (privE privS : UString)
    (stream version : Int32) :
    self.loadKeys platform pubE pubS privE privS stream version =
      self.loadKeys platform pubE' pubS' privE privS stream version := by
  simp only [loadKeys, storeKeys, encryption, signing]

/-- Behind `storeKeys` the keys stay as they are. -/
theorem loadKeys_base {self own : Addr} {pubE pubS privE privS : UString}
    {stream version : Int32} {loaded : Bool}
    (load : self.loadKeys platform pubE pubS privE privS stream version = .ok (loaded, own)) :
    ∃ base, own = { (self.storeKeys pubE pubS privE privS).2 with base } := by
  rcases loadKeys_cases load with ⟨_, stored⟩ | ⟨kept, _, base, stored, _, _, rfl⟩
  · exact ⟨own.base, by rw [stored]⟩
  · exact ⟨base, by rw [stored]⟩

/-- The private signing key is stored last. -/
theorem storeKeys_of_signing {self : Addr} {pubE pubS privE privS : UString}
    (signing : (self.storeKeys pubE pubS privE privS).2.privSigningKey ≠ []) :
    (self.storeKeys pubE pubS privE privS).1 = true := by
  unfold storeKeys at signing ⊢
  cases encryption : PubAddr.storedKey pubE with
  | none => simp [encryption] at signing
  | some pubEncryptionKey =>
      cases signingKey : PubAddr.storedKey pubS with
      | none => simp [encryption, signingKey] at signing
      | some pubSigningKey =>
          by_cases privE32 : privE.length = 32
          · by_cases privS32 : privS.length = 32
            · simp [privE32, privS32]
            · simp [encryption, signingKey, privE32, privS32] at signing
          · simp [encryption, signingKey, privE32] at signing

/-- Keys that came out of `loadKeys` at full width were handed to it at full width. -/
theorem wide_of_loadKeys {self own : Addr} {lead : UString} (form : lead = [] ∨ lead = [4])
    {privE privS : Nat} {stream version : Int32} {loaded : Bool}
    (load : self.loadKeys platform (lead ++ (platform.publicPoint privE).minimal)
      (lead ++ (platform.publicPoint privS).minimal) (privText privE) (privText privS) stream
      version = .ok (loaded, own))
    (keys : own.Serialised platform privE privS) (complete : own.Loaded platform) :
    Wide platform privE privS := by
  have long := complete.longDigest
  rw [LongDigest, keys.pubEncryption_eq, keys.pubSigning_eq] at long
  obtain ⟨base, rfl⟩ := loadKeys_base load
  obtain ⟨encryption, signing, privE_eq, privS_eq⟩ := keys
  have present : (self.storeKeys (lead ++ (platform.publicPoint privE).minimal)
      (lead ++ (platform.publicPoint privS).minimal) (privText privE)
      (privText privS)).2.privSigningKey ≠ [] := by
    rw [privS_eq]
    exact List.ne_nil_of_length_pos (by simp)
  obtain ⟨storedE, storedS, _, _, privE32, privS32, _, _⟩ :=
    storeKeys_eq_true (Prod.ext (storeKeys_of_signing present) rfl)
  rw [encryption] at storedE
  rw [signing] at storedS
  rw [privText_length] at privE32 privS32
  exact ⟨(Point.storedKey_iff _ form).mp storedE, (Point.storedKey_iff _ form).mp storedS,
    privE32, privS32, long⟩

/-- At full width `loadKeys` stores the keys and does not fail. -/
theorem Wide.loadKeys {privE privS : Nat} (wide : Wide platform privE privS) (self : Addr)
    {lead : UString} (form : lead = [] ∨ lead = [4]) (stream version : Int32) :
    ∃ own, self.loadKeys platform (lead ++ (platform.publicPoint privE).minimal)
        (lead ++ (platform.publicPoint privS).minimal) (privText privE) (privText privS) stream
        version = .ok (true, own) ∧ own.Serialised platform privE privS := by
  have pubE := Eq.trans ((Point.storedKey_iff _ form).mpr wide.encryption)
    ((Point.storedKey_iff _ (.inr rfl)).mpr wide.encryption).symm
  have pubS := Eq.trans ((Point.storedKey_iff _ form).mpr wide.signing)
    ((Point.storedKey_iff _ (.inr rfl)).mpr wide.signing).symm
  rw [loadKeys_congr pubE pubS, ← getPubOfPriv_privText, ← getPubOfPriv_privText]
  have encryption := wide.encryption
  have signing := wide.signing
  have long := wide.digest
  rw [← beNat_privText privE] at encryption long
  rw [← beNat_privText privS] at signing long
  rw [← getPubOfPriv_eq encryption, ← getPubOfPriv_eq signing] at long
  obtain ⟨own, load, keys, privE_eq, privS_eq, _, _⟩ := exists_loadKeys self stream version
    ((privText_length privE).trans wide.privE_size) ((privText_length privS).trans wide.privS_size)
    encryption signing long
  refine ⟨own, load, ?_, ?_, ?_, ?_⟩
  · rw [keys.pubEncryption_encode, privE_eq, beNat_privText]
  · rw [keys.pubSigning_encode, privS_eq, beNat_privText]
  · rw [privE_eq, privText_eq wide.privE_size]
  · rw [privS_eq, privText_eq wide.privS_size]

end Addr

/-! ## Digests that are searched for -/

theorem leadingZeros_of_head {digest : UString} (nonempty : digest ≠ [])
    (first : digest.head? ≠ some 0) : leadingZeros digest = .ok 0 := by
  obtain ⟨byte, rest, rfl⟩ := List.exists_cons_of_ne_nil nonempty
  have nonzero : byte ≠ 0 := fun zero => first (by rw [zero]; rfl)
  simp [leadingZeros, nonzero]

theorem leadingZeros_pos {digest : UString} (first : digest.head? = some 0)
    (kept : ∃ byte ∈ digest, byte ≠ 0) : ∃ count, leadingZeros digest = .ok (count + 1) := by
  obtain ⟨rest, rfl⟩ := List.head?_eq_some_iff.mp first
  obtain ⟨byte, member, nonzero⟩ := kept
  refine ⟨(rest.takeWhile (· = 0)).length, ?_⟩
  rw [leadingZeros, if_neg]
  · simp
  · intro zeros
    exact nonzero (of_decide_eq_true (List.all_eq_true.mp zeros byte member))

/-- A digest without any other byte is read past its end. -/
theorem leadingZeros_undefined {digest : UString} (zeros : ¬∃ byte ∈ digest, byte ≠ 0) :
    leadingZeros digest = .error .undefined := by
  rw [leadingZeros, if_pos]
  apply List.all_eq_true.mpr
  intro byte member
  by_contra other
  exact zeros ⟨byte, member, fun zero => other (decide_eq_true zero)⟩

/-- One round of both searches: a digest that begins with a zero byte ends them. -/
theorem leadingZeros_bind {α : Type} {digest : UString} (nonempty : digest ≠ [])
    (again found : Except Exn α) :
    (leadingZeros digest >>= fun zeros => if zeros = 0 then again else found) =
      if digest.head? = some 0 then leadingZeros digest >>= fun _ => found else again := by
  by_cases first : digest.head? = some 0
  · rw [if_pos first]
    by_cases kept : ∃ byte ∈ digest, byte ≠ 0
    · obtain ⟨count, zeros⟩ := leadingZeros_pos first kept
      simp only [zeros, bind, Except.bind, Nat.succ_ne_zero, if_false]
    · rw [leadingZeros_undefined kept]
      rfl
  · simp only [if_neg first, leadingZeros_of_head nonempty first, bind, Except.bind, if_true]

namespace Addr

/-- What `generateRandom` tests of a pair of exponents, for encryption and signing. -/
def randomDigest (platform : Platform) (pair : Nat × Nat) : UString :=
  (platform.ripemd160 (platform.sha512 ((4 :: (platform.publicPoint pair.2).minimal) ++
    (4 :: (platform.publicPoint pair.1).minimal))).toUString).toUString

/-- What `generateDeterministic` tests. -/
def deterministicDigest (platform : Platform) (pair : Nat × Nat) : UString :=
  (platform.sha512 ((platform.publicPoint pair.2).minimal ++
    (platform.publicPoint pair.1).minimal)).toUString

/-- One round of `generateRandom`. -/
theorem generateRandom_cons (self : Addr) (drawn : Nat × Nat) (draws : List (Nat × Nat)) :
    self.generateRandom platform (drawn :: draws) =
      if (randomDigest platform drawn).head? = some 0 then
        leadingZeros (randomDigest platform drawn) >>= fun _ =>
          some <$> self.loadKeys platform ([4] ++ (platform.publicPoint drawn.1).minimal)
            ([4] ++ (platform.publicPoint drawn.2).minimal) (privText drawn.1)
            (privText drawn.2) 1 4
      else self.generateRandom platform draws := by
  have nonempty : randomDigest platform drawn ≠ [] :=
    List.ne_nil_of_length_pos (by simp [randomDigest])
  exact leadingZeros_bind nonempty _ _

/-- `generateRandom` takes the first pair whose digest begins with a zero byte. -/
theorem generateRandom_find (self : Addr) {draws : List (Nat × Nat)} {pair : Nat × Nat}
    (found : draws.find? (fun pair => (randomDigest platform pair).head? = some 0) = some pair) :
    self.generateRandom platform draws = (leadingZeros (randomDigest platform pair) >>= fun _ =>
      some <$> self.loadKeys platform ([4] ++ (platform.publicPoint pair.1).minimal)
        ([4] ++ (platform.publicPoint pair.2).minimal) (privText pair.1) (privText pair.2) 1
        4) := by
  induction draws with
  | nil => cases found
  | cons drawn draws ih =>
      rw [generateRandom_cons]
      by_cases first : (randomDigest platform drawn).head? = some 0
      · rw [List.find?_cons_of_pos (by simpa using first)] at found
        cases found
        exact if_pos first
      · rw [List.find?_cons_of_neg (by simpa using first)] at found
        rw [if_neg first, ih found]

/-- A nonce after so many rounds. -/
def afterRounds (nonce : Int32) : Nat → Int32
  | 0 => nonce
  | rounds + 1 => afterRounds (nonce + 2) rounds

/-- The exponents for encryption and signing of a round with these nonces. -/
def passphrasePair (platform : Platform) (passphrase : UString) (signNonce encNonce : Int32) :
    Nat × Nat :=
  (passphraseKey platform passphrase encNonce, passphraseKey platform passphrase signNonce)

/-- The exponents of the round behind so many others. -/
def roundPair (platform : Platform) (passphrase : UString) (signNonce encNonce : Int32)
    (round : Nat) : Nat × Nat :=
  passphrasePair platform passphrase (afterRounds signNonce round) (afterRounds encNonce round)

/-- One round of the search. -/
theorem searchDeterministic_succ (passphrase : UString) (fuel : Nat)
    (signNonce encNonce : Int32) :
    searchDeterministic platform passphrase (fuel + 1) signNonce encNonce =
      if (deterministicDigest platform
          (passphrasePair platform passphrase signNonce encNonce)).head? = some 0 then
        leadingZeros (deterministicDigest platform
            (passphrasePair platform passphrase signNonce encNonce)) >>= fun _ =>
          .ok (some (passphraseKey platform passphrase encNonce,
            passphraseKey platform passphrase signNonce, signNonce + 2))
      else searchDeterministic platform passphrase fuel (signNonce + 2) (encNonce + 2) := by
  have nonempty : deterministicDigest platform
      (passphrasePair platform passphrase signNonce encNonce) ≠ [] :=
    List.ne_nil_of_length_pos (by simp [deterministicDigest])
  exact leadingZeros_bind nonempty _ _

/-- `generateDeterministic` takes the first round whose digest begins with a zero byte. -/
theorem searchDeterministic_round {passphrase : UString} {round fuel : Nat}
    {signNonce encNonce : Int32} (enough : round < fuel)
    (earlier : ∀ before < round, (deterministicDigest platform
      (roundPair platform passphrase signNonce encNonce before)).head? ≠ some 0)
    (first : (deterministicDigest platform
      (roundPair platform passphrase signNonce encNonce round)).head? = some 0) :
    searchDeterministic platform passphrase fuel signNonce encNonce =
      (leadingZeros (deterministicDigest platform
          (roundPair platform passphrase signNonce encNonce round)) >>= fun _ =>
        .ok (some ((roundPair platform passphrase signNonce encNonce round).1,
          (roundPair platform passphrase signNonce encNonce round).2,
          afterRounds signNonce round + 2))) := by
  induction fuel generalizing round signNonce encNonce with
  | zero => exact absurd enough (Nat.not_lt_zero _)
  | succ fuel ih =>
      rw [searchDeterministic_succ]
      cases round with
      | zero => exact if_pos first
      | succ round =>
          have later := ih (Nat.lt_of_succ_lt_succ enough)
            (fun before less => earlier (before + 1) (Nat.succ_lt_succ less)) first
          exact (if_neg (earlier 0 (Nat.succ_pos _))).trans later

theorem loaded_of_loadKeys {self own : Addr} {pubE pubS privE privS : UString}
    {stream version : Int32}
    (load : self.loadKeys platform pubE pubS privE privS stream version = .ok (true, own)) :
    own.Loaded platform :=
  ⟨self, own, pubE, pubS, privE, privS, stream, version, own.base.lastPubKeyRequest, load, rfl⟩

/-- At full width `generateRandom` tests the digest that the address is made of. -/
theorem Wide.randomDigest_eq {privE privS : Nat} (wide : Wide platform privE privS) :
    randomDigest platform (privE, privS) =
      (keyDigest platform (platform.publicPoint privS).encode.toUString
        (platform.publicPoint privE).encode.toUString).toUString := by
  have kept (point : Point) : withPrefix point.encode.toUString = 4 :: point.coordinates := by
    simp [withPrefix, Point.encode, Block.toUString]
  rw [randomDigest, keyDigest, kept, kept, wide.encryption.minimal_eq, wide.signing.minimal_eq]

theorem Wide.kept {privE privS : Nat} (wide : Wide platform privE privS) :
    ∃ byte ∈ randomDigest platform (privE, privS), byte ≠ 0 := by
  by_contra none
  have zeros : (randomDigest platform (privE, privS)).dropWhile (· = 0) = [] := by
    rw [List.dropWhile_eq_nil_iff]
    intro byte member
    by_contra other
    exact none ⟨byte, member, fun zero => other (decide_eq_true zero)⟩
  have long := wide.digest
  rw [← wide.randomDigest_eq, zeros] at long
  exact absurd long (by decide)

theorem generateRandom_iff (self : Addr) {draws : List (Nat × Nat)} {privE privS : Nat}
    (found : draws.find? (fun pair => (randomDigest platform pair).head? = some 0) =
      some (privE, privS)) :
    (∃ own, self.generateRandom platform draws = .ok (some (true, own)) ∧
      own.Serialised platform privE privS) ↔ Wide platform privE privS := by
  rw [generateRandom_find self found]
  constructor
  · rintro ⟨own, generated, keys⟩
    obtain ⟨_, _, generated⟩ := bind_eq_ok.mp generated
    obtain ⟨result, load, same⟩ := bind_eq_ok.mp generated
    cases same
    exact wide_of_loadKeys (.inr rfl) load keys (loaded_of_loadKeys load)
  · intro wide
    have first := List.find?_some found
    obtain ⟨count, zeros⟩ := leadingZeros_pos (by simpa using first) wide.kept
    obtain ⟨own, load, keys⟩ := wide.loadKeys self (.inr rfl) 1 4
    refine ⟨own, ?_, keys⟩
    rw [zeros, load]
    rfl

theorem generateDeterministic_iff (self : Addr) {passphrase : UString} {nonce : Int32}
    {round fuel : Nat} {privE privS : Nat} (enough : round < fuel)
    (earlier : ∀ before < round, (deterministicDigest platform
      (roundPair platform passphrase nonce (nonce + 1) before)).head? ≠ some 0)
    (derived : roundPair platform passphrase nonce (nonce + 1) round = (privE, privS))
    (first : (deterministicDigest platform (privE, privS)).head? = some 0) :
    (∃ own, self.generateDeterministic platform passphrase fuel nonce =
        .ok (some (afterRounds nonce round + 2, own)) ∧ own.Loaded platform ∧
      own.Serialised platform privE privS) ↔
        Wide platform privE privS ∧
          ∃ byte ∈ deterministicDigest platform (privE, privS), byte ≠ 0 := by
  have search := searchDeterministic_round enough earlier (derived ▸ first)
  rw [derived] at search
  constructor
  · rintro ⟨own, generated, complete, keys⟩
    obtain ⟨_, _, _, _, searched, load, _⟩ := generateDeterministic_eq_some generated
    rw [search] at searched
    by_cases kept : ∃ byte ∈ deterministicDigest platform (privE, privS), byte ≠ 0
    · obtain ⟨count, zeros⟩ := leadingZeros_pos first kept
      rw [zeros] at searched
      cases searched
      exact ⟨wide_of_loadKeys (.inl rfl) load keys complete, kept⟩
    · rw [leadingZeros_undefined kept] at searched
      cases searched
  · rintro ⟨wide, kept⟩
    obtain ⟨count, zeros⟩ := leadingZeros_pos first kept
    obtain ⟨own, load, keys⟩ := wide.loadKeys self (.inl rfl) 1 4
    refine ⟨own, ?_, loaded_of_loadKeys load, keys⟩
    rw [generateDeterministic, search, zeros]
    simp only [List.nil_append] at load
    simp only [bind, Except.bind, load]
    rfl

end Addr

/-- Where keys are serialised at full width: `getPubOfPriv` for every scalar, and the
addresses that the two generators make, whatever they draw or derive. -/
theorem keyWidth_iff (platform : Platform) :
    (∀ scalar < 256 ^ 32, getPubOfPriv platform (beBytes 32 scalar) =
      (platform.publicPoint scalar).encode.toUString ↔
        (platform.publicPoint scalar).FullWidth) ∧
    (∀ (self : Addr) (draws : List (Nat × Nat)) (privE privS : Nat),
      draws.find? (fun pair => (Addr.randomDigest platform pair).head? = some 0) =
        some (privE, privS) →
      ((∃ own, self.generateRandom platform draws = .ok (some (true, own)) ∧
        own.Serialised platform privE privS) ↔ Addr.Wide platform privE privS)) ∧
    (∀ (self : Addr) (passphrase : UString) (nonce : Int32) (round fuel : Nat)
      (privE privS : Nat), round < fuel →
      (∀ before < round, (Addr.deterministicDigest platform
        (Addr.roundPair platform passphrase nonce (nonce + 1) before)).head? ≠ some 0) →
      Addr.roundPair platform passphrase nonce (nonce + 1) round = (privE, privS) →
      (Addr.deterministicDigest platform (privE, privS)).head? = some 0 →
      ((∃ own, self.generateDeterministic platform passphrase fuel nonce =
          .ok (some (Addr.afterRounds nonce round + 2, own)) ∧ own.Loaded platform ∧
        own.Serialised platform privE privS) ↔
          Addr.Wide platform privE privS ∧
            ∃ byte ∈ Addr.deterministicDigest platform (privE, privS), byte ≠ 0)) := by
  refine ⟨fun scalar small => getPubOfPriv_eq_iff small, ?random, ?deterministic⟩
  case random =>
    intro self draws privE privS found
    exact self.generateRandom_iff found
  case deterministic =>
    intro self passphrase nonce round fuel privE privS enough earlier derived first
    exact self.generateDeterministic_iff enough earlier derived first

/-- A platform whose digests begin with a zero byte. -/
def zeroFirst : Platform :=
  { Platform.sample with sha512 := fun data => Platform.fit 64 (0 :: data) }

theorem keyWidth_iff_sample :
    (∃ own, (Addr.new ⟨0, 0, 0, 0⟩).generateRandom zeroFirst [(2 ^ 255, 2 ^ 255 + 1)] =
      .ok (some (true, own)) ∧ own.Serialised zeroFirst (2 ^ 255) (2 ^ 255 + 1)) ∧
    ¬∃ own, (Addr.new ⟨0, 0, 0, 0⟩).generateDeterministic zeroFirst [1] 1 7 =
        .ok (some (9, own)) ∧ own.Loaded zeroFirst ∧
      own.Serialised zeroFirst (Addr.passphraseKey zeroFirst [1] 8)
        (Addr.passphraseKey zeroFirst [1] 7) := by
  constructor
  · apply ((keyWidth_iff zeroFirst).2.1 _ _ _ _ (by decide +kernel)).mpr
    constructor <;> decide +kernel
  · intro generated
    have wide := (((keyWidth_iff zeroFirst).2.2 _ [1] 7 0 1 _ _ (by decide)
      (fun _ less => absurd less (Nat.not_lt_zero _)) rfl (by decide +kernel)).mp generated).1
    exact absurd wide.privE_size (by decide +kernel)

/-- A scalar of secp256k1 and its point, whose second coordinate has 31 bytes. -/
def shortScalar : Nat := 2 ^ 255 + 176

def shortPoint : Point where
  x := 0xcb320ec9395feb52fc04d21bdf624f5cf83cc081027d5df223fd3e0d315be82b
  y := 0xdd484b0f3644f6f35825babee3929c83a236268bee63108ac2732ad35359cf
  x_lt := by decide +kernel
  y_lt := by decide +kernel

/-- A platform that knows this point. -/
def shortPlatform : Platform := {
  Platform.sample with
  publicPoint := fun scalar =>
    if scalar = shortScalar then shortPoint else Platform.samplePoint scalar }

/-- Of the point of this scalar `getPubOfPriv` returns 64 bytes. -/
theorem getPubOfPriv_short : getPubOfPriv shortPlatform (beBytes 32 shortScalar) ≠
    (shortPlatform.publicPoint shortScalar).encode.toUString := by
  decide +kernel

end BitMRC

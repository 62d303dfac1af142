import BitMRC.Address.Sealing

/-!
# Making own addresses

`generateRandom` and `generateDeterministic` look for a key pair whose digest
starts with a zero byte.  Whatever they find went through `loadKeys` with public
keys that belong to the private ones, which is what `Generated` keeps.
-/

namespace BitMRC

open Foundation UString

/-- `while (digest[zeros] == 0x00) zeros++;`, which has no bound. -/
def leadingZeros (digest : UString) : Except Exn Nat :=
  if digest.all (· = 0) then .error .undefined else .ok (digest.takeWhile (· = 0)).length

/-- A private exponent without leading zeros. -/
def privText (exponent : Nat) : UString := beBytes (minEncodedSize exponent) exponent

theorem lt_minEncodedSize (n : Nat) : n < 256 ^ minEncodedSize n := by
  have log : n < 2 ^ (n.log2 + 1) := Nat.lt_log2_self
  have bits : 2 ^ (n.log2 + 1) ≤ 2 ^ (8 * (n.log2 / 8 + 1)) :=
    Nat.pow_le_pow_right (by decide) (by omega)
  have bytes : (256 : Nat) ^ minEncodedSize n = 2 ^ (8 * (n.log2 / 8 + 1)) := by
    rw [minEncodedSize, Nat.pow_mul]
  rw [bytes]
  exact Nat.lt_of_lt_of_le log bits

theorem beNat_privText (exponent : Nat) : beNat (privText exponent) = exponent := by
  rw [privText, beNat_beBytes, Nat.mod_eq_of_lt (lt_minEncodedSize exponent)]

namespace Addr

/-- `generateRandom` on the pairs of private exponents that the random pool draws;
`none` when they do not suffice. -/
def generateRandom (platform : Platform) (self : Addr) :
    List (Nat × Nat) → Except Exn (Option (Bool × Addr))
  | [] => .ok none
  | (privE, privS) :: draws => do
      let pubEKey := 4 :: (platform.publicPoint privE).minimal
      let pubSKey := 4 :: (platform.publicPoint privS).minimal
      let digest := platform.ripemd160 (platform.sha512 (pubSKey ++ pubEKey)).toUString
      let zeros ← leadingZeros digest.toUString
      if zeros = 0 then
        generateRandom platform self draws
      else
        return some (← self.loadKeys platform pubEKey pubSKey (privText privE) (privText privS)
          1 4)

/-- The private exponent number `nonce` of a passphrase. -/
def passphraseKey (platform : Platform) (passphrase : UString) (nonce : Int32) : Nat :=
  beNat ((platform.sha512 (appendVarIntB passphrase (varInt nonce))).toUString.take 32)

/-- The search of `generateDeterministic`: the exponents for encryption and signing,
and the next nonce.  It tests the digest of SHA-512, of the keys without prefix. -/
def searchDeterministic (platform : Platform) (passphrase : UString) :
    Nat → Int32 → Int32 → Except Exn (Option (Nat × Nat × Int32))
  | 0, _, _ => .ok none
  | fuel + 1, signNonce, encNonce => do
      let privS := passphraseKey platform passphrase signNonce
      let privE := passphraseKey platform passphrase encNonce
      let digest := platform.sha512 ((platform.publicPoint privS).minimal ++
        (platform.publicPoint privE).minimal)
      let zeros ← leadingZeros digest.toUString
      if zeros = 0 then
        searchDeterministic platform passphrase fuel (signNonce + 2) (encNonce + 2)
      else
        return some (privE, privS, signNonce + 2)

/-- `generateDeterministic`: the nonce to go on with and the address. -/
def generateDeterministic (platform : Platform) (self : Addr) (passphrase : UString)
    (fuel : Nat) (nonce : Int32) : Except Exn (Option (Int32 × Addr)) := do
  match ← searchDeterministic platform passphrase fuel nonce (nonce + 1) with
  | none => return none
  | some (privE, privS, signNonce) =>
      let (loaded, self) ← self.loadKeys platform (platform.publicPoint privE).minimal
        (platform.publicPoint privS).minimal (privText privE) (privText privS) 1 4
      return some (if loaded then signNonce else nonce, self)

/-! ## What generated addresses have in common -/

/-- A public key of a private one, as the callers of `loadKeys` serialise it. -/
def PublicOf (platform : Platform) (pub priv : UString) : Prop :=
  pub = getPubOfPriv platform priv ∨ pub = (platform.publicPoint (beNat priv)).minimal

/-- The address was loaded with matching keys by `loadKeys`, whatever that returned;
an address string is only there when it went through the check. -/
def Generated (platform : Platform) (own : Addr) : Prop :=
  ∃ (before after : Addr) (pubE pubS privE privS : UString) (stream version : Int32)
    (loaded : Bool) (request : Int64),
    PublicOf platform pubE privE ∧ PublicOf platform pubS privS ∧
      (loaded = false → before.base.address = []) ∧
      before.loadKeys platform pubE pubS privE privS stream version = .ok (loaded, after) ∧
      own = after.setLastPubKeyRequest request

/-- The private keys have public keys of 65 bytes. -/
def FullWidthKeys (platform : Platform) (own : Addr) : Prop :=
  (platform.publicPoint (beNat own.privEncryptionKey)).FullWidth ∧
    (platform.publicPoint (beNat own.privSigningKey)).FullWidth

/-- The digest of the public keys has at most 16 leading zero bytes. -/
def LongDigest (platform : Platform) (own : Addr) : Prop :=
  4 ≤ ((keyDigest platform own.pubSigningKey own.pubEncryptionKey).toUString.dropWhile
    (· = 0)).length

/-- At full width both serialisations are stored in the same way. -/
theorem PublicOf.storedKey {platform : Platform} {pub priv : UString}
    (publicOf : PublicOf platform pub priv)
    (full : (platform.publicPoint (beNat priv)).FullWidth) :
    PubAddr.storedKey pub = some (getPubOfPriv platform priv) := by
  rcases publicOf with prefixed | plain
  · rw [prefixed, storedKey_getPubOfPriv full]
  · have length : ((platform.publicPoint (beNat priv)).minimal).length = 64 := by
      simp [Point.minimal, full.1, full.2]
    rw [plain, PubAddr.storedKey, if_pos length]
    rfl

variable {platform : Platform}

theorem generateRandom_generated {uninit : Uninit} {draws : List (Nat × Nat)} {loaded : Bool}
    {own : Addr}
    (result : (new uninit).generateRandom platform draws = .ok (some (loaded, own))) :
    own.Generated platform := by
  induction draws with
  | nil => cases result
  | cons pair draws ih =>
      rcases pair with ⟨privE, privS⟩
      rw [generateRandom] at result
      cases zeros : leadingZeros (platform.ripemd160 (platform.sha512
          ((4 :: (platform.publicPoint privS).minimal) ++
            (4 :: (platform.publicPoint privE).minimal))).toUString).toUString with
      | error failure =>
          rw [zeros] at result
          cases result
      | ok count =>
          simp only [zeros, bind, Except.bind] at result
          split at result
          next => exact ih result
          next =>
            cases load : (new uninit).loadKeys platform
                (4 :: (platform.publicPoint privE).minimal)
                (4 :: (platform.publicPoint privS).minimal) (privText privE) (privText privS)
                1 4 with
            | error failure => simp [load] at result
            | ok pair =>
                simp only [load, pure, Except.pure, Except.ok.injEq, Option.some.injEq] at result
                subst result
                exact ⟨_, own, _, _, _, _, _, _, _, own.base.lastPubKeyRequest,
                  .inl (by rw [getPubOfPriv, beNat_privText]),
                  .inl (by rw [getPubOfPriv, beNat_privText]), fun _ => rfl, load, rfl⟩

/-- A call that returns has found a pair of exponents and tried to load their keys. -/
theorem generateDeterministic_eq_some {self own : Addr} {passphrase : UString} {fuel : Nat}
    {nonce next : Int32}
    (generated : self.generateDeterministic platform passphrase fuel nonce =
      .ok (some (next, own))) :
    ∃ privE privS signNonce loaded,
      searchDeterministic platform passphrase fuel nonce (nonce + 1) =
        .ok (some (privE, privS, signNonce)) ∧
      self.loadKeys platform (platform.publicPoint privE).minimal
        (platform.publicPoint privS).minimal (privText privE) (privText privS) 1 4 =
          .ok (loaded, own) ∧
      next = if loaded then signNonce else nonce := by
  unfold generateDeterministic at generated
  obtain ⟨found, searched, generated⟩ := bind_eq_ok.mp generated
  cases found with
  | none => cases generated
  | some triple =>
      obtain ⟨privE, privS, signNonce⟩ := triple
      obtain ⟨⟨loaded, after⟩, load, same⟩ := bind_eq_ok.mp generated
      cases same
      exact ⟨privE, privS, signNonce, loaded, searched, load, rfl⟩

theorem generateDeterministic_generated {uninit : Uninit} {passphrase : UString} {fuel : Nat}
    {nonce next : Int32} {own : Addr}
    (result : (new uninit).generateDeterministic platform passphrase fuel nonce =
      .ok (some (next, own))) : own.Generated platform := by
  obtain ⟨privE, privS, _, loaded, _, load, _⟩ := generateDeterministic_eq_some result
  exact ⟨_, own, _, _, _, _, _, _, loaded, own.base.lastPubKeyRequest,
    .inr (by rw [beNat_privText]), .inr (by rw [beNat_privText]), fun _ => rfl, load, rfl⟩

/-- Another note of the time keeps an address generated. -/
theorem Generated.setLastPubKeyRequest {own : Addr} (generated : own.Generated platform)
    (request : Int64) : (own.setLastPubKeyRequest request).Generated platform := by
  obtain ⟨before, after, pubE, pubS, privE, privS, stream, version, loaded, _, ofE, ofS, bare,
    load, rfl⟩ := generated
  exact ⟨before, after, pubE, pubS, privE, privS, stream, version, loaded, request, ofE, ofS,
    bare, load, rfl⟩

/-- With an address string and a digest of at least four bytes, the loading succeeded. -/
theorem Generated.loaded {own : Addr} (generated : own.Generated platform)
    (listed : own.base.address ≠ []) (long : own.LongDigest platform) :
    own.Loaded platform := by
  obtain ⟨before, after, pubE, pubS, privE, privS, stream, version, loaded, request, _, _, bare,
    load, equal⟩ := generated
  cases loaded with
  | true => exact ⟨before, after, pubE, pubS, privE, privS, stream, version, request, load, equal⟩
  | false =>
      subst equal
      rcases loadKeys_cases load with ⟨_, stored⟩ | ⟨kept, address, base, _, _, body, split⟩
      · exact absurd ((storeKeys_address stored).trans (bare rfl)) listed
      · subst split
        obtain ⟨other, loads⟩ := @PubAddr.exists_loadBody platform
          { kept.base with version, stream, empty := false, address } address _ version stream
          (ripe_length_le _ _ _) long
        have differ := body.symm.trans loads
        cases differ

/-- The digest of a loaded address was long enough. -/
theorem Loaded.longDigest {own : Addr} (loaded : own.Loaded platform) :
    own.LongDigest platform := by
  obtain ⟨before, after, pubE, pubS, privE, privS, stream, version, request, load, equal⟩ :=
    loaded
  rcases loadKeys_cases load with ⟨wrong, _⟩ | ⟨kept, address, base, _, _, body, split⟩
  · cases wrong
  · subst equal split
    exact (PubAddr.loadBody_eq_true (ripe_length_le _ _ _) body).1

/-- At full width the keys of a generated address match. -/
theorem Generated.keysMatch {own : Addr} (generated : own.Generated platform)
    (listed : own.base.address ≠ []) (full : own.FullWidthKeys platform) :
    own.KeysMatch platform := by
  obtain ⟨before, after, pubE, pubS, privE, privS, stream, version, loaded, request, ofE, ofS,
    bare, load, equal⟩ := generated
  subst equal
  rcases loadKeys_cases load with ⟨wrong, stored⟩ | ⟨kept, address, base, stored, _, _, split⟩
  · exact absurd ((storeKeys_address stored).trans (bare wrong)) listed
  · subst split
    obtain ⟨encryption, signing, privE_eq, privS_eq, privE32, privS32, _, _⟩ :=
      storeKeys_eq_true stored
    subst privE_eq privS_eq
    have encryptionEq := encryption.symm.trans (ofE.storedKey full.1)
    have signingEq := signing.symm.trans (ofS.storedKey full.2)
    simp only [Option.some.injEq] at encryptionEq signingEq
    have width {priv : UString} (wide : (platform.publicPoint (beNat priv)).FullWidth) :
        (getPubOfPriv platform priv).length = 65 := by
      rw [getPubOfPriv_eq wide, Block.toUString_length]
    constructor
    · exact privS32
    · exact privE32
    · exact signingEq
    · exact encryptionEq
    · exact (congrArg List.length signingEq).trans (width full.2)
    · exact (congrArg List.length encryptionEq).trans (width full.1)

end Addr

end BitMRC

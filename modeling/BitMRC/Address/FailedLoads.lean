import BitMRC.Address.Sealing

/-!
# What a failed load leaves behind

`loadAddr` and both `loadKeys` assign members before their last check, so that a call
that returns false may have changed the object.  Each of them leaves it as it was only
when the members that it had assigned by then held these values before.
-/

namespace BitMRC

open UString

variable {platform : Platform}

/-! ## Keys by their form -/

namespace PubAddr

/-- The first byte of a key of 65 bytes is not `0x04`. -/
def WrongPrefix (key : UString) : Prop := key.length = 65 ∧ key.head? ≠ some 4

instance (key : UString) : Decidable (WrongPrefix key) :=
  inferInstanceAs (Decidable (_ ∧ _))

/-- What `loadKeys` keeps of a key: nothing of one that has the wrong form. -/
def keptKey (key : UString) : UString := (storedKey key).getD []

theorem storedKey_eq_none {key : UString} : storedKey key = none ↔ WrongPrefix key := by
  unfold storedKey WrongPrefix
  split
  next plain => simp [plain]
  split
  next long =>
    split
    next prefixed => simp [prefixed]
    next other => simp [long, other]
  next other => simp [other]

theorem keptKey_of_wrong {key : UString} (wrong : WrongPrefix key) : keptKey key = [] := by
  rw [keptKey, storedKey_eq_none.mpr wrong, Option.getD_none]

theorem storedKey_of_right {key : UString} (right : ¬WrongPrefix key) :
    storedKey key = some (keptKey key) := by
  cases stored : storedKey key with
  | none => exact absurd (storedKey_eq_none.mp stored) right
  | some found => rw [keptKey, stored, Option.getD_some]

/-! ## `PubAddr::loadKeys` -/

variable (self : PubAddr) {skey ekey : UString} (nonce extra : Int32)

theorem loadKeys_of_wrong (wrong : WrongPrefix ekey ∨ WrongPrefix skey) :
    self.loadKeys skey ekey nonce extra = (false, {
      self with
      extraBytes := extra
      nonceTrials := nonce
      pubEncryptionKey := keptKey ekey
      pubSigningKey := [] }) := by
  by_cases encryption : WrongPrefix ekey
  · simp only [loadKeys, storedKey_eq_none.mpr encryption, keptKey_of_wrong encryption]
  · have signing := wrong.resolve_left encryption
    simp only [loadKeys, storedKey_of_right encryption, storedKey_eq_none.mpr signing]

theorem loadKeys_of_right (encryption : ¬WrongPrefix ekey) (signing : ¬WrongPrefix skey) :
    self.loadKeys skey ekey nonce extra = (true, {
      self with
      extraBytes := extra
      nonceTrials := nonce
      pubEncryptionKey := keptKey ekey
      pubSigningKey := keptKey skey
      empty := false }) := by
  simp only [loadKeys, storedKey_of_right encryption, storedKey_of_right signing]

/-- The members that a failing `loadKeys` assigns already hold what it assigns. -/
def KeysCleared (skey ekey : UString) : Prop :=
  WrongPrefix ekey ∨ WrongPrefix skey →
    self.extraBytes = extra ∧ self.nonceTrials = nonce ∧ self.pubEncryptionKey = keptKey ekey ∧
      self.pubSigningKey = []

theorem loadKeys_unchanged_iff :
    (∀ after, self.loadKeys skey ekey nonce extra = (false, after) → after = self) ↔
      self.KeysCleared nonce extra skey ekey := by
  constructor
  · intro unchanged wrong
    have same := unchanged _ (self.loadKeys_of_wrong nonce extra wrong)
    rw [← same]
    exact ⟨rfl, rfl, rfl, rfl⟩
  · intro cleared after failed
    by_cases wrong : WrongPrefix ekey ∨ WrongPrefix skey
    · obtain ⟨extraEq, nonceEq, encryptionEq, signingEq⟩ := cleared wrong
      rw [self.loadKeys_of_wrong nonce extra wrong, ← extraEq, ← nonceEq, ← encryptionEq,
        ← signingEq] at failed
      exact (Prod.mk.inj failed).2.symm
    · rw [not_or] at wrong
      rw [self.loadKeys_of_right nonce extra wrong.1 wrong.2] at failed
      cases failed

/-! ## `loadAddr` -/

/-- Version and stream can be read and 4 to 20 bytes are left. -/
def BodyFits (body : UString) : Prop :=
  ∃ version stream ripe, readAddressBody.value body 0 = .ok (version, stream, ripe) ∧
    ripe.length ≤ 20 ∧ 4 ≤ ripe.length

theorem loadBody_of_fits {address body : UString} (fits : BodyFits body) :
    ∃ after, self.loadBody platform address body = (true, after) := by
  obtain ⟨version, stream, ripe, read, short, long⟩ := fits
  exact ⟨_, loadBody_eq_true_iff.mpr ⟨version, stream, ripe, read, short, long, rfl⟩⟩

theorem loadBody_of_not_fits {address body : UString} (unfit : ¬BodyFits body) :
    self.loadBody platform address body = (false, { self with address }) := by
  rcases loadBody_cases platform self address body with fails |
    ⟨version, stream, ripe, read, short, long, _⟩
  · exact fails
  · exact absurd ⟨version, stream, ripe, read, short, long⟩ unfit

theorem bodyFits_addressBody {version stream : Int32} {ripe : UString}
    (short : ripe.length ≤ 20) :
    BodyFits (addressBody version stream ripe) ↔ 4 ≤ ripe.length := by
  rw [BodyFits, readAddressBody_addressBody short]
  constructor
  · rintro ⟨_, _, _, ⟨⟩, _, long⟩
    exact long
  · intro long
    exact ⟨version, stream, ripe, rfl, short, long⟩

/-- A string with a right checksum in front of which no address stands is the address
string of the object already. -/
def AddressKept (platform : Platform) (address : UString) : Prop :=
  ∀ body, decodeAddress platform address = .ok (some body) → ¬BodyFits body →
    self.address = address

theorem loadAddr_unchanged_iff (address : UString) :
    (∀ after, self.loadAddr platform address = .ok (false, after) → after = self) ↔
      self.AddressKept platform address := by
  constructor
  · intro unchanged body decoded unfit
    have failed := loadAddr_of_decoded decoded self
    rw [self.loadBody_of_not_fits unfit] at failed
    exact congrArg PubAddr.address (unchanged _ failed).symm
  · intro kept after failed
    unfold loadAddr at failed
    cases decoded : decodeAddress platform address with
    | error failure =>
        rw [decoded] at failed
        cases failed
    | ok checked =>
        rw [decoded] at failed
        cases checked with
        | none =>
            cases failed
            rfl
        | some body =>
            have loaded : self.loadBody platform address body = (false, after) :=
              Except.ok.inj failed
            by_cases fits : BodyFits body
            · obtain ⟨other, succeeded⟩ := @loadBody_of_fits platform self address body fits
              cases succeeded.symm.trans loaded
            · rw [self.loadBody_of_not_fits fits, ← kept body decoded fits] at loaded
              exact (Prod.mk.inj loaded).2.symm

end PubAddr

/-! ## `Addr::loadKeys` -/

namespace Addr

open PubAddr

variable {pubE pubS privE privS : UString}

/-- The members that `storeKeys` assigns. -/
def withKeys (self : Addr) (pubE pubS privE privS : UString) : Addr where
  base := { self.base with extraBytes := 1000, nonceTrials := 1000 }
  pubSigningKey := pubS
  privSigningKey := privS
  pubEncryptionKey := pubE
  privEncryptionKey := privE

/-- The members that `storeKeys` assigns hold these values already. -/
structure HasKeys (own : Addr) (pubE pubS privE privS : UString) : Prop where
  extraBytes : own.base.extraBytes = 1000
  nonceTrials : own.base.nonceTrials = 1000
  pubEncryption : own.pubEncryptionKey = pubE
  pubSigning : own.pubSigningKey = pubS
  privEncryption : own.privEncryptionKey = privE
  privSigning : own.privSigningKey = privS

theorem HasKeys.withKeys_eq {own : Addr} (has : own.HasKeys pubE pubS privE privS) :
    own.withKeys pubE pubS privE privS = own := by
  have extraBytes := has.extraBytes
  have nonceTrials := has.nonceTrials
  obtain ⟨⟨_, _, _, _, _, _, _, _, _, _, _, _⟩, _, _, _, _⟩ := own
  simp only at extraBytes nonceTrials
  obtain ⟨_, _, rfl, rfl, rfl, rfl⟩ := has
  subst extraBytes nonceTrials
  rfl

theorem withKeys_hasKeys (self : Addr) (pubE pubS privE privS : UString) :
    (self.withKeys pubE pubS privE privS).HasKeys pubE pubS privE privS :=
  ⟨rfl, rfl, rfl, rfl, rfl, rfl⟩

/-- Where `storeKeys` returns, by the form of the keys. -/
theorem storeKeys_eq (self : Addr) (pubE pubS privE privS : UString) :
    self.storeKeys pubE pubS privE privS =
      if WrongPrefix pubE then (false, self.withKeys [] [] [] [])
      else if WrongPrefix pubS then (false, self.withKeys (keptKey pubE) [] [] [])
      else if privE.length ≠ 32 then
        (false, self.withKeys (keptKey pubE) (keptKey pubS) [] [])
      else if privS.length ≠ 32 then
        (false, self.withKeys (keptKey pubE) (keptKey pubS) privE [])
      else (true, self.withKeys (keptKey pubE) (keptKey pubS) privE privS) := by
  by_cases encryption : WrongPrefix pubE
  · rw [if_pos encryption]
    simp only [storeKeys, storedKey_eq_none.mpr encryption, withKeys]
  rw [if_neg encryption]
  by_cases signing : WrongPrefix pubS
  · rw [if_pos signing]
    simp only [storeKeys, storedKey_of_right encryption, storedKey_eq_none.mpr signing, withKeys]
  rw [if_neg signing]
  simp only [storeKeys, storedKey_of_right encryption, storedKey_of_right signing, ite_not,
    withKeys]

/-- Both public keys have a form that `loadKeys` takes, both private keys have 32 bytes. -/
structure RightForm (pubE pubS privE privS : UString) : Prop where
  encryption : ¬WrongPrefix pubE
  signing : ¬WrongPrefix pubS
  privE32 : privE.length = 32
  privS32 : privS.length = 32

theorem RightForm.storeKeys_eq (right : RightForm pubE pubS privE privS) (self : Addr) :
    self.storeKeys pubE pubS privE privS =
      (true, self.withKeys (keptKey pubE) (keptKey pubS) privE privS) := by
  rw [Addr.storeKeys_eq, if_neg right.encryption, if_neg right.signing,
    if_neg (not_not.mpr right.privE32), if_neg (not_not.mpr right.privS32)]

/-- The digest of the stored keys leaves an address that `loadAddr` takes. -/
def LoadsBack (platform : Platform) (pubE pubS : UString) : Prop :=
  4 ≤ ((keyDigest platform (keptKey pubS) (keptKey pubE)).toUString.dropWhile (· = 0)).length

instance (pubE pubS : UString) : Decidable (LoadsBack platform pubE pubS) :=
  inferInstanceAs (Decidable (_ ≤ _))

/-- What `loadKeys` makes of keys of the right form. -/
theorem RightForm.loadKeys_eq (right : RightForm pubE pubS privE privS) (self : Addr)
    (stream version : Int32) {loaded : Bool} {after : Addr} :
    self.loadKeys platform pubE pubS privE privS stream version = .ok (loaded, after) ↔
      ∃ address, buildAddressFromKeys platform (keptKey pubS) (keptKey pubE) stream version =
          .ok address ∧
        let base := { self.base with
          extraBytes := 1000, nonceTrials := 1000, version, stream, empty := false, address }
        let ripe := (keyDigest platform (keptKey pubS) (keptKey pubE)).toUString.dropWhile (· = 0)
        loaded = decide (LoadsBack platform pubE pubS) ∧ after = {
          self.withKeys (keptKey pubE) (keptKey pubS) privE privS with
          base := if LoadsBack platform pubE pubS then
            base.withBody platform address version stream ripe else base } := by
  have short := ripe_length_le platform (keptKey pubS) (keptKey pubE)
  unfold loadKeys
  simp only [right.storeKeys_eq, if_true]
  cases built : buildAddressFromKeys platform (keptKey pubS) (keptKey pubE) stream version with
  | error failure => simp [withKeys, built, bind, Except.bind]
  | ok address =>
      have decoded := loadAddr_buildAddress built { self.base with
        extraBytes := 1000, nonceTrials := 1000, version, stream, empty := false, address }
      by_cases long : LoadsBack platform pubE pubS
      · rw [(PubAddr.loadBody_addressBody short).mpr ⟨long, rfl⟩] at decoded
        simp only [withKeys, built, decoded, bind, Except.bind, pure, Except.pure]
        simp [long, eq_comm]
      · have unfit := mt (@bodyFits_addressBody version stream _ short).mp long
        rw [PubAddr.loadBody_of_not_fits _ unfit] at decoded
        simp only [withKeys, built, decoded, bind, Except.bind, pure, Except.pure]
        simp [long, eq_comm]

/-- The members that a failing `loadKeys` assigns up to its exit already hold what it
assigns. -/
def KeysKept (platform : Platform) (own : Addr) (pubE pubS privE privS : UString)
    (stream version : Int32) : Prop :=
  if WrongPrefix pubE then own.HasKeys [] [] [] []
  else if WrongPrefix pubS then own.HasKeys (keptKey pubE) [] [] []
  else if privE.length ≠ 32 then own.HasKeys (keptKey pubE) (keptKey pubS) [] []
  else if privS.length ≠ 32 then own.HasKeys (keptKey pubE) (keptKey pubS) privE []
  else ∀ address, ¬LoadsBack platform pubE pubS →
    buildAddressFromKeys platform (keptKey pubS) (keptKey pubE) stream version = .ok address →
    own.HasKeys (keptKey pubE) (keptKey pubS) privE privS ∧ own.base.version = version ∧
      own.base.stream = stream ∧ own.base.empty = false ∧ own.base.address = address

/-- An exit of `storeKeys` is one of `loadKeys`. -/
theorem loadKeys_of_exit {self : Addr} {keptE keptS keptPrivE keptPrivS : UString}
    (exit : self.storeKeys pubE pubS privE privS =
      (false, self.withKeys keptE keptS keptPrivE keptPrivS)) (stream version : Int32) :
    self.loadKeys platform pubE pubS privE privS stream version =
      .ok (false, self.withKeys keptE keptS keptPrivE keptPrivS) := by
  simp only [loadKeys, exit]
  rfl

/-- At an exit of `storeKeys` nothing has changed if and only if the keys were there. -/
theorem exit_unchanged_iff {self : Addr} {keptE keptS keptPrivE keptPrivS : UString}
    (exit : self.storeKeys pubE pubS privE privS =
      (false, self.withKeys keptE keptS keptPrivE keptPrivS)) (stream version : Int32) :
    (∀ after, self.loadKeys platform pubE pubS privE privS stream version = .ok (false, after) →
      after = self) ↔ self.HasKeys keptE keptS keptPrivE keptPrivS := by
  rw [loadKeys_of_exit exit]
  constructor
  · intro unchanged
    have has := self.withKeys_hasKeys keptE keptS keptPrivE keptPrivS
    rwa [unchanged _ rfl] at has
  · intro has after failed
    cases failed
    exact has.withKeys_eq

theorem address_unchanged_iff {self : Addr} (right : RightForm pubE pubS privE privS)
    (stream version : Int32) :
    (∀ after, self.loadKeys platform pubE pubS privE privS stream version = .ok (false, after) →
      after = self) ↔ ∀ address, ¬LoadsBack platform pubE pubS →
        buildAddressFromKeys platform (keptKey pubS) (keptKey pubE) stream version =
          .ok address →
        self.HasKeys (keptKey pubE) (keptKey pubS) privE privS ∧ self.base.version = version ∧
          self.base.stream = stream ∧ self.base.empty = false ∧ self.base.address = address := by
  constructor
  · intro unchanged address short built
    have same := unchanged _ ((right.loadKeys_eq self stream version).mpr
      ⟨address, built, (decide_eq_false short).symm, rfl⟩)
    simp only [if_neg short] at same
    have base := congrArg Addr.base same
    refine ⟨?_, ?_, ?_, ?_, ?_⟩
    · rw [← same]
      exact ⟨rfl, rfl, rfl, rfl, rfl, rfl⟩
    · exact (congrArg PubAddr.version base).symm
    · exact (congrArg PubAddr.stream base).symm
    · exact (congrArg PubAddr.empty base).symm
    · exact (congrArg PubAddr.address base).symm
  · intro kept after failed
    obtain ⟨address, built, loaded, rfl⟩ := (right.loadKeys_eq self stream version).mp failed
    have short := of_decide_eq_false loaded.symm
    obtain ⟨has, versionEq, streamEq, emptyEq, addressEq⟩ := kept address short built
    conv_rhs => rw [← has.withKeys_eq]
    simp only [if_neg short, ← versionEq, ← streamEq, ← emptyEq, ← addressEq, withKeys]

theorem loadKeys_unchanged_iff (self : Addr) (pubE pubS privE privS : UString)
    (stream version : Int32) :
    (∀ after, self.loadKeys platform pubE pubS privE privS stream version = .ok (false, after) →
      after = self) ↔ self.KeysKept platform pubE pubS privE privS stream version := by
  have exits := self.storeKeys_eq pubE pubS privE privS
  unfold KeysKept
  by_cases encryption : WrongPrefix pubE
  · rw [if_pos encryption] at exits ⊢
    exact exit_unchanged_iff exits stream version
  rw [if_neg encryption] at exits ⊢
  by_cases signing : WrongPrefix pubS
  · rw [if_pos signing] at exits ⊢
    exact exit_unchanged_iff exits stream version
  rw [if_neg signing] at exits ⊢
  by_cases privE32 : privE.length ≠ 32
  · rw [if_pos privE32] at exits ⊢
    exact exit_unchanged_iff exits stream version
  rw [if_neg privE32] at exits ⊢
  by_cases privS32 : privS.length ≠ 32
  · rw [if_pos privS32] at exits ⊢
    exact exit_unchanged_iff exits stream version
  rw [if_neg privS32]
  exact address_unchanged_iff ⟨encryption, signing, not_not.mp privE32, not_not.mp privS32⟩
    stream version

end Addr

/-- When a load that returns false changes nothing, for the three loaders. -/
theorem failed_loads_unchanged_iff (platform : Platform) :
    (∀ (self : PubAddr) (address : UString),
      (∀ after, self.loadAddr platform address = .ok (false, after) → after = self) ↔
        self.AddressKept platform address) ∧
    (∀ (self : PubAddr) (skey ekey : UString) (nonce extra : Int32),
      (∀ after, self.loadKeys skey ekey nonce extra = (false, after) → after = self) ↔
        self.KeysCleared nonce extra skey ekey) ∧
    (∀ (self : Addr) (pubE pubS privE privS : UString) (stream version : Int32),
      (∀ after, self.loadKeys platform pubE pubS privE privS stream version =
          .ok (false, after) → after = self) ↔
        self.KeysKept platform pubE pubS privE privS stream version) :=
  ⟨fun self => self.loadAddr_unchanged_iff, fun self _ _ => self.loadKeys_unchanged_iff,
    fun self => self.loadKeys_unchanged_iff⟩

/-- An entry of the address book that has its keys. -/
def PubAddr.contact : PubAddr := {
  PubAddr.new ⟨1000, 1000, 4, 1⟩ with
  pubSigningKey := 4 :: List.replicate 64 1
  pubEncryptionKey := 4 :: List.replicate 64 2
  empty := false }

/-- With an encryption key of 65 bytes that has another first byte the load fails, and both
keys are gone. -/
theorem PubAddr.not_loadKeys_unchanged :
    ¬∀ after, contact.loadKeys (List.replicate 64 3) (List.replicate 65 0) 1000 1000 =
      (false, after) → after = contact := by
  intro unchanged
  have cleared := unchanged _ rfl
  exact absurd (congrArg PubAddr.pubSigningKey cleared) (by decide)

end BitMRC

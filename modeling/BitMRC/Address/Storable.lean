import BitMRC.Address.RoundTrip
import BitMRC.Foundation.Settles

/-!
# When `store` comes back

The text of the statement is always short enough, unless the second key needs more characters
than the first one.  Then nothing is written to its array, and the text depends on what the
array held before.
-/

namespace BitMRC

open Foundation UString Storage

variable {platform : Platform}

/-! ## The parts of the statement -/

/-- The digest of the keys is not all zeros: the loop over its leading zeros ends. -/
def HasAddress (platform : Platform) (skey ekey : UString) : Prop :=
  ∃ byte ∈ (keyDigest platform skey ekey).toUString, byte ≠ 0

theorem hasAddress_iff {skey ekey : UString} : HasAddress platform skey ekey ↔
    (keyDigest platform skey ekey).toUString.dropWhile (· = 0) ≠ [] := by
  rw [HasAddress, Ne, List.dropWhile_eq_nil_iff]
  simp

/-- Without an address, building it leaves the digest. -/
theorem buildAddressFromKeys_settles (skey ekey : UString) (stream version : Int32) :
    Settles (HasAddress platform skey ekey) (· = .undefined)
      (buildAddressFromKeys platform skey ekey stream version) := by
  rw [hasAddress_iff]
  constructor
  · exact exists_buildAddress stream version
  · intro zeros
    refine ⟨.undefined, ?_, rfl⟩
    rw [buildAddressFromKeys, if_pos (Decidable.not_not.mp zeros)]
    rfl

theorem decimal_length (n : UInt32) : (decimal n.toNat).length ≤ 10 := by
  refine Nat.toDigits_length 10 n.toNat 10 (by decide) ?_
  have small := n.toNat_lt
  omega

theorem updateQuery_length (addr : UString) (version stream : Int32) (skey ekey : UString) :
    (updateQuery addr version stream skey ekey).length ≤
      addr.length + skey.length + ekey.length + 98 := by
  have versionLength := decimal_length version.toUInt32
  have streamLength := decimal_length stream.toUInt32
  simp [updateQuery, ascii]
  omega

/-! ## The answer -/

/-- What is found is inside the row. -/
theorem findFieldFrom_cases (name : CString) (row : List QueryResultElement) (n : Nat) :
    QueryResult.findFieldFrom name (UInt32.ofNat n) row = -1 ∨
      ∃ k, k < n + row.length ∧
        QueryResult.findFieldFrom name (UInt32.ofNat n) row = (UInt32.ofNat k).toInt32 := by
  induction row generalizing n with
  | nil => exact .inl rfl
  | cons it rest ih =>
      rw [QueryResult.findFieldFrom]
      split
      next => exact .inr ⟨n, by simp, rfl⟩
      next =>
        rw [show UInt32.ofNat n + 1 = UInt32.ofNat (n + 1) from (UInt32.ofNat_add n 1).symm]
        rcases ih (n + 1) with missing | ⟨k, inside, found⟩
        · exact .inl missing
        · refine .inr ⟨k, ?_, found⟩
          rw [List.length_cons]
          omega

theorem Answer.exists_getFieldUint32 (answer : Answer) (name : CString) (out : UInt32) :
    ∃ found, answer.qr.getFieldUint32 (some name) (some out) = .ok found := by
  have few := answer.few
  unfold QueryResult.getFieldUint32 QueryResult.getField
  dsimp only
  rcases findFieldFrom_cases name answer.qr.qrtv 0 with missing | ⟨k, inside, found⟩
  · exact ⟨_, if_neg (not_not_intro missing)⟩
  · have position : (answer.qr.findField name).toInt = k := by
      rw [show answer.qr.findField name = _ from found, UInt32.toInt32_ofNat']
      exact Int32.toInt_ofNat_of_lt (by omega)
    split
    next =>
      have row : k < answer.qr.qrtv.length := by omega
      refine ⟨(true, some answer.qr.qrtv[k].getUint32Value), ?_⟩
      rw [position, sizeT_natCast (by omega), CheckedArray.fetch, List.getElem?_eq_getElem row]
      rfl
    next => exact ⟨_, rfl⟩

/-! ## The keys -/

/-- What a key of `len` bytes is encoded to. -/
def KeyDraws.Encodes (key : KeyDraws) (len : Nat) (text : UString) : Prop :=
  ∃ src, key.src = some src ∧ b58text ((List.range len).map src) = .ok text

theorem KeyDraws.exists_encodes {key : KeyDraws} (readable : key.src ≠ none) (len : Nat) :
    ∃ text, key.Encodes len text := by
  obtain ⟨src, found⟩ := Option.ne_none_iff_exists'.mp readable
  obtain ⟨digits, encoded, _⟩ := exists_b58text ((List.range len).map src)
  exact ⟨_, src, found, encoded⟩

/-- A key of 65 bytes fits into its array. -/
theorem KeyDraws.Encodes.length {key : KeyDraws} {text : UString} (encodes : key.Encodes 65 text) :
    text.length ≤ 90 := by
  obtain ⟨src, _, encoded⟩ := encodes
  simpa using b58text_length encoded

theorem KeyDraws.Encodes.unique {key : KeyDraws} {len : Nat} {text other : UString}
    (encodes : key.Encodes len text) (same : key.Encodes len other) : text = other := by
  obtain ⟨src, found, encoded⟩ := encodes
  obtain ⟨src', found', encoded'⟩ := same
  cases found.symm.trans found'
  exact Except.ok.inj (encoded.symm.trans encoded')

theorem encodeKey_eq {key : KeyDraws} {b58sz : Nat} {text : UString}
    (encodes : key.Encodes 65 text) :
    encodeKey key b58sz 65 =
      .ok (if b58sz ≤ text.length then key.array else some text, text.length + 1) := by
  have small := encodes.length
  obtain ⟨src, found, encoded⟩ := encodes
  simp only [encodeKey, found, encoded, bind, Except.bind]
  split
  next => rfl
  next => exact if_neg (by omega)

theorem encodeKey_unreadable {key : KeyDraws} (unreadable : key.src = none) (b58sz len : Nat) :
    encodeKey key b58sz len = .error .undefined := by
  rw [encodeKey, unreadable]

/-! ## The whole call -/

namespace PubAddr

/-- What the array of the second key held before fits into the statement. -/
def LeftFits (platform : Platform) (draws : StoreDraws) (self : PubAddr) (skey : UString) : Prop :=
  ∃ left, draws.encryption.array = some left ∧ ∀ addr, buildAddressFromKeys platform
    self.pubSigningKey self.pubEncryptionKey self.stream self.version = .ok addr →
      (updateQuery addr self.version self.stream skey left).length < 384

/-- What the statement needs: both freed strings can be read, the keys have an address, and
where the second key needs more characters than the first one, what is left fits. -/
structure Statable (platform : Platform) (draws : StoreDraws) (address : PubAddr) : Prop where
  signing : draws.signing.src ≠ none
  encryption : draws.encryption.src ≠ none
  hasAddress : HasAddress platform address.pubSigningKey address.pubEncryptionKey
  fits : ∀ skey ekey, draws.signing.Encodes 65 skey → draws.encryption.Encodes 65 ekey →
    skey.length < ekey.length → address.LeftFits platform draws skey

/-- What `store` needs: a statement and a storage. -/
def Storable (platform : Platform) (draws : StoreDraws) (self : PubAddr) : Prop :=
  self.Statable platform draws ∧ draws.strg ≠ none

variable {draws : StoreDraws} {self : PubAddr}

/-- The second key is printed unless it needs more characters than the first one. -/
theorem getUpdateQuery_eq {skey ekey : UString} (signing : self.pubSigningKey.length = 65)
    (encryption : self.pubEncryptionKey.length = 65) (first : draws.signing.Encodes 65 skey)
    (second : draws.encryption.Encodes 65 ekey) :
    self.getUpdateQuery platform draws = (do
      let addr ← buildAddressFromKeys platform self.pubSigningKey self.pubEncryptionKey
        self.stream self.version
      printQuery addr self.version self.stream (some skey)
        (if skey.length < ekey.length then draws.encryption.array else some ekey)) := by
  have small := first.length
  have room : ¬(127 < skey.length) := by omega
  simp only [getUpdateQuery, signing, encryption, encodeKey_eq first, encodeKey_eq second, bind,
    Except.bind, Nat.succ_le_iff, if_neg room]

/-- Two keys of 65 bytes fit into the statement. -/
theorem printQuery_settles {addr skey ekey : UString} {version stream : Int32}
    {array : Option UString} (address : addr.length ≤ 61) (signing : skey.length ≤ 90)
    (encryption : ekey.length ≤ 90) :
    Settles (skey.length < ekey.length → ∃ left, array = some left ∧
        (updateQuery addr version stream skey left).length < 384) (· = .undefined)
      (printQuery addr version stream (some skey)
        (if skey.length < ekey.length then array else some ekey)) := by
  by_cases longer : skey.length < ekey.length
  · rw [if_pos longer, imp_iff_right longer]
    cases array with
    | none => exact (@Settles.error _ _ (· = Exn.undefined) _ rfl).congr (by simp)
    | some left =>
        simp only [printQuery]
        by_cases fits : (updateQuery addr version stream skey left).length < 384
        · rw [if_pos fits]
          exact (Settles.ok _).congr (iff_of_true trivial ⟨left, rfl, fits⟩)
        · rw [if_neg fits]
          refine (@Settles.error _ _ (· = Exn.undefined) _ rfl).congr (iff_of_false id ?_)
          rintro ⟨_, ⟨⟩, small⟩
          exact fits small
  · have total := updateQuery_length addr version stream skey ekey
    rw [if_neg longer]
    simp only [printQuery]
    rw [if_pos (by omega)]
    exact (Settles.ok _).congr (iff_of_true trivial fun other => absurd other longer)

theorem getUpdateQuery_settles (signing : self.pubSigningKey.length = 65)
    (encryption : self.pubEncryptionKey.length = 65) :
    Settles (self.Statable platform draws) (· = .undefined)
      (self.getUpdateQuery platform draws) := by
  have undefined (unstatable : ¬self.Statable platform draws)
      (failed : self.getUpdateQuery platform draws = .error .undefined) :
      Settles (self.Statable platform draws) (· = .undefined)
        (self.getUpdateQuery platform draws) := by
    rw [failed]
    exact (@Settles.error _ _ (· = Exn.undefined) _ rfl).congr (iff_of_false id unstatable)
  by_cases readable : draws.signing.src = none
  · refine undefined (fun statable => statable.signing readable) ?_
    rw [getUpdateQuery, encodeKey_unreadable readable]
    rfl
  obtain ⟨skey, first⟩ := KeyDraws.exists_encodes readable 65
  by_cases readableToo : draws.encryption.src = none
  · refine undefined (fun statable => statable.encryption readableToo) ?_
    simp only [getUpdateQuery, signing, encodeKey_eq first, encodeKey_unreadable readableToo, bind,
      Except.bind]
  obtain ⟨ekey, second⟩ := KeyDraws.exists_encodes readableToo 65
  rw [getUpdateQuery_eq signing encryption first second]
  refine ((buildAddressFromKeys_settles _ _ _ _).bind fun addr built =>
    printQuery_settles (buildAddress_length built) first.length second.length).congr ?_
  constructor
  · rintro ⟨hasAddress, fits⟩
    refine ⟨readable, readableToo, hasAddress, fun found other encodes encodesToo longer => ?_⟩
    rw [encodes.unique first, encodesToo.unique second] at longer
    rw [encodes.unique first]
    obtain ⟨addr, built⟩ := (buildAddressFromKeys_settles _ _ _ _).returns hasAddress
    obtain ⟨left, array, small⟩ := fits addr built longer
    refine ⟨left, array, fun found again => ?_⟩
    cases again.symm.trans built
    exact small
  · intro statable
    refine ⟨statable.hasAddress, fun addr built longer => ?_⟩
    obtain ⟨left, array, small⟩ := statable.fits skey ekey first second longer
    exact ⟨left, array, small addr built⟩

/-- `store` comes back exactly under its condition. -/
theorem store_settles (signing : self.pubSigningKey.length = 65)
    (encryption : self.pubEncryptionKey.length = 65) :
    Settles (self.Storable platform draws) (· = .undefined) (self.store platform draws) := by
  refine (getUpdateQuery_settles signing encryption).bind_const fun query _ => ?_
  cases draws.strg with
  | none => exact (@Settles.error _ _ (· = Exn.undefined) _ rfl).congr (by simp)
  | some sqlExec =>
      dsimp only
      cases sqlExec query with
      | none => exact (Settles.ok false).congr (by simp)
      | some answer =>
          obtain ⟨found, read⟩ := answer.exists_getFieldUint32 databaseVersion 0
          simp only [read, bind, Except.bind]
          exact (Settles.ok found.1).congr (by simp)

end PubAddr

end BitMRC

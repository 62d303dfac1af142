import BitMRC.Address.Addr
import BitMRC.Address.Base58RoundTrip
import BitMRC.Crypto.Sample

/-!
# Address strings

`loadAddr` recovers version, stream and digest from the string that
`buildAddressFromKeys` makes of them, and what it recovers depends on the string
alone.
-/

namespace BitMRC

open Foundation UString

variable {platform : Platform}

/-- An `int` survives `appendVarInt_B` and `(int)getVarInt_B`. -/
theorem varInt_toInt32 (i : Int32) : (varInt i).toInt64.toInt32 = i := by
  simp [varInt]

theorem addressBody_eq (version stream : Int32) (ripe : UString) :
    addressBody version stream ripe =
      appendVarIntB [] (varInt version) ++ (appendVarIntB [] (varInt stream) ++ ripe) := by
  rw [addressBody, appendVarIntB_eq, List.append_assoc]

theorem addressBody_length_le (version stream : Int32) (ripe : UString) :
    (addressBody version stream ripe).length ≤ ripe.length + 18 := by
  have first := appendVarIntB_length_le (varInt version)
  have second := appendVarIntB_length_le (varInt stream)
  rw [addressBody_eq]
  simp only [List.length_append]
  omega

/-- The body of an address is read back. -/
theorem readAddressBody_addressBody {version stream : Int32} {ripe : UString}
    (short : ripe.length ≤ 20) :
    readAddressBody.value (addressBody version stream ripe) 0 = .ok (version, stream, ripe) := by
  have length := addressBody_length_le version stream ripe
  have small : (addressBody version stream ripe).length < intLimit := by
    simp only [intLimit]
    omega
  have here : Cursor.At (addressBody version stream ripe) 0
      (appendVarIntB [] (varInt version) ++ (appendVarIntB [] (varInt stream) ++ ripe)) :=
    ⟨Nat.zero_le _, addressBody_eq version stream ripe⟩
  obtain ⟨readVersion, atStream⟩ := (getVarIntB_decodes (varInt version)).at small here
  obtain ⟨readStream, atRipe⟩ := (getVarIntB_decodes (varInt stream)).at small atStream
  have readRipe := getRest_at small atRipe
  apply Cursor.value_of_ok
  rw [readAddressBody, Cursor.bind_of_ok readVersion, Cursor.bind_of_ok readStream,
    Cursor.bind_of_ok readRipe, Cursor.pure_apply, varInt_toInt32, varInt_toInt32]

/-- Bytes with their checksum behind them are accepted. -/
theorem PubAddr.checkedBody_append (platform : Platform) (body : UString)
    (short : body.length + 4 < intLimit) :
    PubAddr.checkedBody platform
      (body ++ (platform.doubleSHA512 body).toUString.take 4) = .ok (some body) := by
  generalize checksumEq : (platform.doubleSHA512 body).toUString.take 4 = checksum
  have four : checksum.length = 4 := by simp [← checksumEq]
  simp only [intLimit] at short
  have checkPos : ((((body ++ checksum).length : Int) - 4) % 2 ^ 32).toNat = body.length := by
    rw [List.length_append, four]
    omega
  have len : toInt body.length = body.length := toInt_of_lt (by omega)
  have total : (body ++ checksum).length < intLimit := by
    simp only [intLimit, List.length_append, four]
    omega
  obtain ⟨readBody, atChecksum⟩ := (getUstring_decodes body).at total (Cursor.At.start _)
  have readChecksum := (getUstring_decodes_of_length 4 checksum (by rw [four]; rfl)).at_end total
    atChecksum
  rw [Nat.zero_add] at readChecksum
  simp only [checkedBody, checkPos, len, Cursor.value_of_ok readBody, bind, Except.bind]
  simp [Cursor.value_of_ok readChecksum, platform.cBytes_self four, checksumEq]
  rfl

/-- The digest without its leading zeros, as it stands in an address. -/
theorem ripe_length_le (platform : Platform) (skey ekey : UString) :
    ((keyDigest platform skey ekey).toUString.dropWhile (· = 0)).length ≤ 20 := by
  have le := List.length_dropWhile_le (fun byte => decide (byte = 0))
    (keyDigest platform skey ekey).toUString
  simpa using le

/-- A body with its checksum becomes base-58 text that decodes with `BM-` in front of
it and without. -/
theorem exists_addressText (platform : Platform) {body : UString} (short : body.length ≤ 46) :
    ∃ text, b58enc 256 (body ++ (platform.doubleSHA512 body).toUString.take 4) =
        .ok (some text) ∧
      PubAddr.decodeAddress platform (addressPrefix ++ text) = .ok (some body) ∧
      PubAddr.decodeAddress platform text = .ok (some body) := by
  have decodedLength : (body ++ (platform.doubleSHA512 body).toUString.take 4).length ≤ 50 := by
    simp only [List.length_append, List.length_take, Block.toUString_length]
    omega
  obtain ⟨text, encoded, decoded⟩ := b58tobin_b58enc decodedLength
  obtain ⟨written, textLength⟩ := b58enc_eq_some.mp encoded
  have checked := PubAddr.checkedBody_append platform body
    (by simp only [intLimit]; omega)
  refine ⟨text, encoded, ?_, ?_⟩
  · have small : (addressPrefix ++ text).length < intLimit := by
      simp only [addressPrefix, List.length_append, List.length_cons, List.length_nil, intLimit]
      omega
    obtain ⟨readBM, atText⟩ := (getUstring_decodes_of_length 3 addressPrefix rfl).at small
      (Cursor.At.start _)
    have readText : getRest.value (addressPrefix ++ text) 3 = .ok text :=
      Cursor.value_of_ok (getRest_at small atText)
    rw [PubAddr.decodeAddress]
    simp only [Cursor.value_of_ok readBM, bind, Except.bind, if_true, readText, decoded, checked]
  · have small : text.length < intLimit := by
      simp only [intLimit]
      omega
    have readBM : (getUstring 3).value text 0 = .ok (text.take 3) := by
      apply Cursor.value_of_ok
      exact getUstring_eq_ok.mpr ⟨Nat.zero_le _, rfl, rfl⟩
    have other : text.take 3 ≠ addressPrefix := by
      intro equal
      apply b58text_no_dash written
      apply List.mem_of_mem_take (i := 3)
      rw [equal]
      decide
    have readText : getRest.value text 0 = .ok text :=
      Cursor.value_of_ok (getRest_at small (Cursor.At.start text))
    rw [PubAddr.decodeAddress]
    simp only [readBM, bind, Except.bind, if_neg other, readText, decoded, checked]

/-- The text in `buildAddressFromKeys`, for a digest that is not all zeros. -/
theorem exists_buildAddress_text {skey ekey : UString} (stream version : Int32)
    (nonzero : (keyDigest platform skey ekey).toUString.dropWhile (· = 0) ≠ []) :
    ∃ text, buildAddressFromKeys platform skey ekey stream version = .ok (addressPrefix ++ text) ∧
      ∀ address, (address = addressPrefix ++ text ∨ address = text) →
        PubAddr.decodeAddress platform address = .ok (some (addressBody version stream
          ((keyDigest platform skey ekey).toUString.dropWhile (· = 0)))) := by
  have ripeLength := ripe_length_le platform skey ekey
  generalize ripeEq : (keyDigest platform skey ekey).toUString.dropWhile (· = 0) = ripe
    at ripeLength nonzero ⊢
  have bodyLength := addressBody_length_le version stream ripe
  obtain ⟨text, encoded, long, bare⟩ := exists_addressText platform
    (show (addressBody version stream ripe).length ≤ 46 by omega)
  refine ⟨text, ?_, ?_⟩
  · simp only [buildAddressFromKeys, ripeEq, bind, Except.bind, if_neg nonzero, encoded]
    rfl
  · rintro address (rfl | rfl)
    · exact long
    · exact bare

/-- Keys whose digest is not all zeros have an address. -/
theorem exists_buildAddress {skey ekey : UString} (stream version : Int32)
    (nonzero : (keyDigest platform skey ekey).toUString.dropWhile (· = 0) ≠ []) :
    ∃ address, buildAddressFromKeys platform skey ekey stream version = .ok address := by
  obtain ⟨text, built, _⟩ := exists_buildAddress_text stream version nonzero
  exact ⟨_, built⟩

/-- Address strings that the node builds are short. -/
theorem buildAddress_length {skey ekey address : UString} {stream version : Int32}
    (built : buildAddressFromKeys platform skey ekey stream version = .ok address) :
    address.length ≤ 61 := by
  simp only [buildAddressFromKeys] at built
  split at built
  next => cases built
  obtain ⟨found, encoded, built⟩ := bind_eq_ok.mp built
  cases found with
  | none => cases built
  | some text =>
      cases built
      have length := b58text_length (b58enc_eq_some.mp encoded).1
      have body := addressBody_length_le version stream
        ((keyDigest platform skey ekey).toUString.dropWhile (· = 0))
      have ripe := ripe_length_le platform skey ekey
      simp only [addressPrefix, List.length_append, List.length_cons, List.length_nil,
        List.length_take, Block.toUString_length] at length ⊢
      omega

/-- Keys with an address have a digest that is not all zeros. -/
theorem dropWhile_ne_nil_of_built {skey ekey address : UString} {stream version : Int32}
    (built : buildAddressFromKeys platform skey ekey stream version = .ok address) :
    (keyDigest platform skey ekey).toUString.dropWhile (· = 0) ≠ [] := by
  intro zeros
  simp [buildAddressFromKeys, zeros, bind, Except.bind] at built

/-- The checked bytes behind a string that `buildAddressFromKeys` built. -/
theorem decodeAddress_buildAddress {skey ekey address : UString} {stream version : Int32}
    (built : buildAddressFromKeys platform skey ekey stream version = .ok address) :
    PubAddr.decodeAddress platform address = .ok (some (addressBody version stream
      ((keyDigest platform skey ekey).toUString.dropWhile (· = 0)))) := by
  obtain ⟨text, found, decoded⟩ :=
    exists_buildAddress_text stream version (dropWhile_ne_nil_of_built built)
  cases built.symm.trans found
  exact decoded _ (.inl rfl)

/-- What `loadAddr` makes of a string with checked bytes. -/
theorem PubAddr.loadAddr_of_decoded {address body : UString}
    (decoded : decodeAddress platform address = .ok (some body)) (self : PubAddr) :
    self.loadAddr platform address = .ok (self.loadBody platform address body) := by
  simp only [loadAddr, decoded, bind, Except.bind]
  rfl

/-- What `loadAddr` makes of a string that `buildAddressFromKeys` built. -/
theorem loadAddr_buildAddress {skey ekey address : UString} {stream version : Int32}
    (built : buildAddressFromKeys platform skey ekey stream version = .ok address)
    (self : PubAddr) :
    self.loadAddr platform address =
      .ok (PubAddr.loadBody platform self address (addressBody version stream
        ((keyDigest platform skey ekey).toUString.dropWhile (· = 0)))) :=
  PubAddr.loadAddr_of_decoded (decodeAddress_buildAddress built) self

/-- The fields that `loadBody` sets. -/
def PubAddr.withBody (platform : Platform) (self : PubAddr) (address : UString)
    (version stream : Int32) (ripe : UString) : PubAddr :=
  let ripe := List.replicate (20 - ripe.length) 0 ++ ripe
  let digest := platform.doubleSHA512 (addressBody version stream ripe)
  { self with
    address, version, stream, ripe
    tagE := digest.toUString.take 32
    tag := digest.toUString.drop 32
    empty := true }

/-- Both ends of `loadBody`. -/
theorem PubAddr.loadBody_cases (platform : Platform) (self : PubAddr) (address body : UString) :
    self.loadBody platform address body = (false, { self with address }) ∨
    ∃ version stream ripe, readAddressBody.value body 0 = .ok (version, stream, ripe) ∧
      ripe.length ≤ 20 ∧ 4 ≤ ripe.length ∧
      self.loadBody platform address body =
        (true, self.withBody platform address version stream ripe) := by
  unfold loadBody
  cases read : readAddressBody.value body 0 with
  | error failure => exact .inl rfl
  | ok fields =>
      obtain ⟨version, stream, ripe⟩ := fields
      simp only
      split
      next => exact .inl rfl
      split
      next => exact .inl rfl
      next short long =>
        exact .inr ⟨version, stream, ripe, rfl, Nat.le_of_not_lt short, Nat.le_of_not_lt long, rfl⟩

theorem PubAddr.loadBody_eq_true_iff {self after : PubAddr} {address body : UString} :
    self.loadBody platform address body = (true, after) ↔
      ∃ version stream ripe, readAddressBody.value body 0 = .ok (version, stream, ripe) ∧
        ripe.length ≤ 20 ∧ 4 ≤ ripe.length ∧
        after = self.withBody platform address version stream ripe := by
  constructor
  · intro loaded
    rcases loadBody_cases platform self address body with fails |
      ⟨version, stream, ripe, read, short, long, loads⟩
    · cases fails.symm.trans loaded
    · cases loads.symm.trans loaded
      exact ⟨version, stream, ripe, read, short, long, rfl⟩
  · rintro ⟨version, stream, ripe, read, short, long, rfl⟩
    simp only [loadBody, read, if_neg (Nat.not_lt.mpr short), if_neg (Nat.not_lt.mpr long)]
    rfl

/-- A body made of a digest that fits loads when the digest has four bytes. -/
theorem PubAddr.loadBody_addressBody {self after : PubAddr} {address ripe : UString}
    {version stream : Int32} (short : ripe.length ≤ 20) :
    self.loadBody platform address (addressBody version stream ripe) = (true, after) ↔
      4 ≤ ripe.length ∧ after = self.withBody platform address version stream ripe := by
  rw [loadBody_eq_true_iff, readAddressBody_addressBody short]
  constructor
  · rintro ⟨_, _, _, ⟨⟩, _, long, same⟩
    exact ⟨long, same⟩
  · rintro ⟨long, same⟩
    exact ⟨version, stream, ripe, rfl, short, long, same⟩

/-- What is loaded is what the body was made of. -/
theorem PubAddr.loadBody_eq_true {self after : PubAddr} {address ripe : UString}
    {version stream : Int32} (short : ripe.length ≤ 20)
    (loaded : PubAddr.loadBody platform self address (addressBody version stream ripe) =
      (true, after)) :
    4 ≤ ripe.length ∧ after.version = version ∧ after.stream = stream ∧
      after.address = address := by
  obtain ⟨long, rfl⟩ := (loadBody_addressBody short).mp loaded
  exact ⟨long, rfl, rfl, rfl⟩

theorem PubAddr.exists_loadBody (self : PubAddr) (address : UString) {ripe : UString}
    (version stream : Int32) (short : ripe.length ≤ 20) (long : 4 ≤ ripe.length) :
    ∃ after, PubAddr.loadBody platform self address (addressBody version stream ripe) =
      (true, after) :=
  ⟨_, (loadBody_addressBody short).mpr ⟨long, rfl⟩⟩

/-- The string that `buildAddressFromKeys` makes of keys whose digest has enough bytes
behind its leading zeros loads as the address it stands for, with or without `BM-`. -/
theorem PubAddr.loadAddr_buildAddressFromKeys (self : PubAddr) {skey ekey : UString}
    (stream version : Int32)
    (zeros : ((keyDigest platform skey ekey).toUString.takeWhile (· = 0)).length ≤ 16) :
    ∃ text, buildAddressFromKeys platform skey ekey stream version =
        .ok (addressPrefix ++ text) ∧
      ∀ address, (address = addressPrefix ++ text ∨ address = text) →
        ∃ after, self.loadAddr platform address = .ok (true, after) ∧
          after.version = version ∧ after.stream = stream ∧
          after.ripe = (keyDigest platform skey ekey).toUString := by
  have filled := replicate_append_dropWhile 0 (keyDigest platform skey ekey).toUString
  have total := congrArg List.length filled
  rw [List.length_append, List.length_replicate, Block.toUString_length] at total
  have nonzero : (keyDigest platform skey ekey).toUString.dropWhile (· = 0) ≠ [] := by
    intro none
    rw [none, List.length_nil] at total
    omega
  obtain ⟨text, built, decoded⟩ := exists_buildAddress_text stream version nonzero
  refine ⟨text, built, fun address either => ?_⟩
  generalize (keyDigest platform skey ekey).toUString.dropWhile (· = 0) = ripe
    at filled total decoded
  have short : ripe.length ≤ 20 := by omega
  have loaded := (@loadBody_addressBody platform self _ address _ version stream short).mpr
    ⟨by omega, rfl⟩
  refine ⟨self.withBody platform address version stream ripe, ?_, rfl, rfl, ?_⟩
  · rw [loadAddr_of_decoded (decoded address either), loaded]
  · have count : 20 - ripe.length =
        ((keyDigest platform skey ekey).toUString.takeWhile (· = 0)).length := by omega
    rw [withBody, count, filled]

/-- Version 0 puts a zero byte in front of the digest. -/
theorem PubAddr.loadAddr_buildAddressFromKeys_sample :
    ∃ text, buildAddressFromKeys Platform.sample (List.replicate 64 1) (List.replicate 64 2)
        (-1) 0 = .ok (addressPrefix ++ text) ∧
      ∀ address, (address = addressPrefix ++ text ∨ address = text) →
        ∃ after, (PubAddr.new ⟨0, 0, 0, 0⟩).loadAddr Platform.sample address =
            .ok (true, after) ∧
          after.version = 0 ∧ after.stream = -1 ∧
          after.ripe = 4 :: List.replicate 19 1 :=
  loadAddr_buildAddressFromKeys _ (-1) 0 (by decide +kernel)

theorem PubAddr.loadBody_tags {self after : PubAddr} {address body : UString}
    (loaded : self.loadBody platform address body = (true, after)) :
    after.ripe.length = 20 ∧ after.tag.length = 32 ∧ after.tagE.length = 32 := by
  obtain ⟨version, stream, ripe, _, short, _, rfl⟩ := loadBody_eq_true_iff.mp loaded
  simp only [withBody, List.length_append, List.length_replicate, List.length_take,
    List.length_drop, Block.toUString_length]
  exact ⟨by omega, trivial, rfl⟩

/-- What a successful `loadBody` sets depends on the address and the body alone. -/
theorem PubAddr.loadBody_agree {self after : PubAddr} {address body : UString}
    (loaded : self.loadBody platform address body = (true, after)) (other : PubAddr) :
    other.loadBody platform address body = (true, {
      other with
      address
      version := after.version
      stream := after.stream
      ripe := after.ripe
      tagE := after.tagE
      tag := after.tag
      empty := true }) := by
  obtain ⟨version, stream, ripe, read, short, long, rfl⟩ := loadBody_eq_true_iff.mp loaded
  exact loadBody_eq_true_iff.mpr ⟨version, stream, ripe, read, short, long, rfl⟩

/-- `loadAddr` succeeds when the string decodes to a body that loads. -/
theorem PubAddr.loadAddr_eq_true {self after : PubAddr} {address : UString} :
    self.loadAddr platform address = .ok (true, after) ↔
      ∃ body, decodeAddress platform address = .ok (some body) ∧
        self.loadBody platform address body = (true, after) := by
  unfold loadAddr
  cases decoded : decodeAddress platform address with
  | error failure => simp [bind, Except.bind]
  | ok result =>
      cases result with
      | none => simp [bind, Except.bind, pure, Except.pure]
      | some body => simp [bind, Except.bind, pure, Except.pure]

/-- What a successful `loadAddr` sets depends on the address string alone. -/
theorem PubAddr.loadAddr_agree {self after : PubAddr} {address : UString}
    (loaded : self.loadAddr platform address = .ok (true, after)) (other : PubAddr) :
    other.loadAddr platform address = .ok (true, {
      other with
      address
      version := after.version
      stream := after.stream
      ripe := after.ripe
      tagE := after.tagE
      tag := after.tag
      empty := true }) := by
  obtain ⟨body, decoded, fields⟩ := loadAddr_eq_true.mp loaded
  exact loadAddr_eq_true.mpr ⟨body, decoded, loadBody_agree fields other⟩

/-- The string of a body that loads is not looked at. -/
theorem PubAddr.loadBody_string {self after : PubAddr} {address body : UString}
    (loaded : self.loadBody platform address body = (true, after)) (other : UString) :
    self.loadBody platform other body = (true, { after with address := other }) := by
  obtain ⟨version, stream, ripe, read, short, long, rfl⟩ := loadBody_eq_true_iff.mp loaded
  exact loadBody_eq_true_iff.mpr ⟨version, stream, ripe, read, short, long, rfl⟩

/-- Without `BM-` an address string loads as the same address under another string. -/
theorem PubAddr.loadAddr_without_prefix {skey ekey address : UString} {stream version : Int32}
    (built : buildAddressFromKeys platform skey ekey stream version = .ok address) :
    ∃ text, address = addressPrefix ++ text ∧ ∀ self after : PubAddr,
      self.loadAddr platform address = .ok (true, after) →
      self.loadAddr platform text = .ok (true, { after with address := text }) := by
  obtain ⟨text, found, decoded⟩ :=
    exists_buildAddress_text stream version (dropWhile_ne_nil_of_built built)
  cases built.symm.trans found
  refine ⟨text, rfl, ?_⟩
  intro self after loaded
  obtain ⟨body, same, fields⟩ := loadAddr_eq_true.mp loaded
  cases same.symm.trans (decoded _ (.inl rfl))
  exact loadAddr_eq_true.mpr ⟨_, decoded _ (.inr rfl), loadBody_string fields text⟩

end BitMRC

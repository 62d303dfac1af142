import BitMRC.Address.RoundTrip
import BitMRC.Foundation.Growth
import BitMRC.Utils.UStringReads

/-!
# Address book entries

Every entry of the address book has an address string that decodes, and once it
does not wait any more its keys are ones that `loadKeys` stores unchanged.
`loadAddr`, `loadKeys` and `decodeFromObj` keep this, whatever bytes they are given.
While an entry stays in the book its address string never changes, and once its keys
are known they do not change either (`Kept`).
-/

namespace BitMRC

open Foundation UString

variable {platform : Platform}

/-- What is stored of a key is stored again as it is. -/
theorem storedKey_stored {key stored : UString} (taken : PubAddr.storedKey key = some stored) :
    PubAddr.storedKey stored = some stored := by
  unfold PubAddr.storedKey at taken
  split at taken
  next plain =>
    cases taken
    simp [PubAddr.storedKey, plain]
  split at taken
  next prefixed =>
    split at taken
    next first =>
      cases taken
      simp [PubAddr.storedKey, prefixed, first]
    next => cases taken
  next =>
    cases taken
    rfl

/-- Stored keys are short. -/
theorem storedKey_length {key stored : UString} (taken : PubAddr.storedKey key = some stored) :
    stored.length ≤ 65 := by
  unfold PubAddr.storedKey at taken
  split at taken
  next plain =>
    cases taken
    simp [plain]
  split at taken
  next prefixed =>
    split at taken
    next =>
      cases taken
      exact Nat.le_of_eq prefixed
    next => cases taken
  next =>
    cases taken
    exact Nat.zero_le _

namespace PubAddr

/-- What the address book keeps about an entry. -/
structure Listed (platform : Platform) (entry : PubAddr) : Prop where
  short : entry.address.length < intLimit
  decodes : ∃ body, decodeAddress platform entry.address = .ok (some body)
  keys : entry.waitingPubKey = false →
    storedKey entry.pubSigningKey = some entry.pubSigningKey ∧
      storedKey entry.pubEncryptionKey = some entry.pubEncryptionKey

theorem loadBody_address (platform : Platform) (self : PubAddr) (address body : UString) :
    (self.loadBody platform address body).2.address = address := by
  rcases loadBody_cases platform self address body with fails | ⟨_, _, _, _, _, _, loads⟩
  · rw [fails]
  · rw [loads]
    rfl

/-- Loading an address string does not bring keys. -/
theorem loadBody_waiting {self : PubAddr} (waits : self.waitingPubKey = true)
    (address body : UString) : (self.loadBody platform address body).2.waitingPubKey = true := by
  rcases loadBody_cases platform self address body with fails | ⟨_, _, _, _, _, _, loads⟩
  · rw [fails]
    exact waits
  · rw [loads]
    rfl

/-- A freshly loaded address waits for its keys. -/
theorem Listed.of_loadAddr {self after : PubAddr} {address : UString}
    (short : address.length < intLimit)
    (loaded : self.loadAddr platform address = .ok (true, after)) : after.Listed platform := by
  obtain ⟨body, decoded, fields⟩ := loadAddr_eq_true.mp loaded
  have addressEq := loadBody_address platform self address body
  have waits : after.empty = true :=
    congrArg (fun pair => pair.2.empty) (fields.symm.trans (loadBody_agree fields self))
  rw [fields] at addressEq
  constructor
  · rwa [addressEq]
  · exact ⟨body, by rw [addressEq]; exact decoded⟩
  · intro known
    rw [waitingPubKey, waits] at known
    cases known

/-- Loading keys keeps an entry listed, whether it succeeds or not. -/
theorem Listed.loadKeys {self : PubAddr} (short : self.address.length < intLimit)
    (decodes : ∃ body, decodeAddress platform self.address = .ok (some body))
    (skey ekey : UString) (nonce extra : Int32) :
    (self.loadKeys skey ekey nonce extra).2.Listed platform := by
  unfold PubAddr.loadKeys
  cases encryption : storedKey ekey with
  | none => exact ⟨short, decodes, fun _ => ⟨rfl, rfl⟩⟩
  | some pubEncryptionKey =>
      cases signing : storedKey skey with
      | none => exact ⟨short, decodes, fun _ => ⟨rfl, storedKey_stored encryption⟩⟩
      | some pubSigningKey =>
          exact ⟨short, decodes, fun _ => ⟨storedKey_stored signing, storedKey_stored encryption⟩⟩

/-- The address string of an entry is loaded again. -/
theorem Listed.reload {entry self : PubAddr} (listed : entry.Listed platform)
    (waits : self.waitingPubKey = true) :
    ∃ flag tmp, self.loadAddr platform entry.address = .ok (flag, tmp) ∧
      tmp.address = entry.address ∧ tmp.waitingPubKey = true ∧ tmp.Listed platform := by
  obtain ⟨body, decoded⟩ := listed.decodes
  have address := loadBody_address platform self entry.address body
  have waiting := @loadBody_waiting platform self waits entry.address body
  have loads := loadAddr_of_decoded decoded self
  generalize self.loadBody platform entry.address body = loaded at address waiting loads
  refine ⟨loaded.1, loaded.2, loads, address, waiting, ?_, ?_, ?_⟩
  · rw [address]
    exact listed.short
  · exact ⟨body, by rw [address]; exact decoded⟩
  · intro known
    rw [waiting] at known
    cases known

/-- Loading a string into a fresh entry lists it, or leaves it without an address. -/
theorem Listed.of_new {uninit : Uninit} {address : UString} {flag : Bool} {tmp : PubAddr}
    (short : address.length < intLimit)
    (loads : (new uninit).loadAddr platform address = .ok (flag, tmp)) :
    tmp.address = [] ∨ tmp.Listed platform := by
  cases decoded : decodeAddress platform address with
  | error failure => simp [loadAddr, decoded, bind, Except.bind] at loads
  | ok found =>
      cases found with
      | none =>
          simp only [loadAddr, decoded, bind, Except.bind, pure, Except.pure] at loads
          cases loads
          exact .inl rfl
      | some body =>
          have string := loadBody_address platform (new uninit) address body
          have waits := @loadBody_waiting platform (new uninit) rfl address body
          have same := (loadAddr_of_decoded decoded (new uninit)).symm.trans loads
          simp only [Except.ok.injEq] at same
          simp only [same] at string waits
          refine .inr ⟨?_, ?_, ?_⟩
          · rwa [string]
          · exact ⟨body, by rwa [string]⟩
          · intro known
            rw [waits] at known
            cases known

/-- What a call of `decodeFromObj` that returns can do. -/
theorem decodeFromObj_cases {self after : PubAddr} {pubkey : PacketPubkey} {loaded : Bool}
    (result : self.decodeFromObj platform pubkey = .ok (loaded, after)) :
    (loaded = false ∧ after = self) ∨
    ∃ (data : UString) (plain : PubkeyPlain) (point : Point) (header text : UString),
      loaded = true ∧ decode platform pubkey.encrypted self.tagE = .ok data ∧
      readPubkeyPlain.value data 0 = .ok plain ∧
      (readPoint platform).value plain.signingKey 1 = .ok point ∧
      Object.signedHeader.value pubkey.messagePayload 8 = .ok header ∧
      (getUstring (toInt plain.k)).value data 0 = .ok text ∧
      verifySignature platform point plain.sign (header ++ self.tag ++ text) = .ok true ∧
      after = (self.loadKeys plain.signingKey plain.encryptionKey plain.nonceTrials
        plain.extraBytes).2 := by
  unfold PubAddr.decodeFromObj at result
  split at result
  next =>
    cases result
    exact .inl ⟨rfl, rfl⟩
  next data opened =>
    unfold acceptPlain at result
    obtain ⟨plain, read, result⟩ := bind_eq_ok.mp result
    obtain ⟨point, readKey, result⟩ := bind_eq_ok.mp result
    obtain ⟨header, signed, result⟩ := bind_eq_ok.mp result
    obtain ⟨text, covered, result⟩ := bind_eq_ok.mp result
    obtain ⟨valid, verified, result⟩ := bind_eq_ok.mp result
    cases valid with
    | true =>
        cases result
        exact .inr ⟨data, plain, point, header, text, rfl, opened, read, readKey, signed, covered,
          verified, rfl⟩
    | false =>
        cases result
        exact .inl ⟨rfl, rfl⟩

/-- `loadKeys` leaves the address string alone. -/
theorem loadKeys_address (self : PubAddr) (skey ekey : UString) (nonce extra : Int32) :
    (self.loadKeys skey ekey nonce extra).2.address = self.address := by
  unfold loadKeys
  cases storedKey ekey with
  | none => rfl
  | some _ => cases storedKey skey <;> rfl

/-- `decodeFromObj` keeps the address string. -/
theorem decodeFromObj_address {self after : PubAddr} {pubkey : PacketPubkey} {loaded : Bool}
    (result : self.decodeFromObj platform pubkey = .ok (loaded, after)) :
    after.address = self.address := by
  rcases decodeFromObj_cases result with ⟨_, same⟩ | ⟨_, _, _, _, _, _, _, _, _, _, _, _, same⟩
  · rw [same]
  · rw [same, loadKeys_address]

/-- `decodeFromObj` keeps what is known about an entry. -/
theorem Listed.decodeFromObj {self after : PubAddr} {pubkey : PacketPubkey} {loaded : Bool}
    (listed : self.Listed platform)
    (result : self.decodeFromObj platform pubkey = .ok (loaded, after)) :
    after.Listed platform := by
  rcases decodeFromObj_cases result with ⟨_, same⟩ | ⟨_, _, _, _, _, _, _, _, _, _, _, _, same⟩
  · rwa [same]
  · rw [same]
    exact Listed.loadKeys listed.short listed.decodes _ _ _ _

/-! ## What stays -/

/-- What does not change about an entry any more. -/
structure Kept (entry entry' : PubAddr) : Prop where
  address : entry'.address = entry.address
  waiting : entry.waitingPubKey = false → entry'.waitingPubKey = false
  pubSigningKey : entry.waitingPubKey = false → entry'.pubSigningKey = entry.pubSigningKey
  pubEncryptionKey : entry.waitingPubKey = false →
    entry'.pubEncryptionKey = entry.pubEncryptionKey
  nonceTrials : entry.waitingPubKey = false → entry'.nonceTrials = entry.nonceTrials
  extraBytes : entry.waitingPubKey = false → entry'.extraBytes = entry.extraBytes

theorem Kept.refl (entry : PubAddr) : entry.Kept entry :=
  ⟨rfl, id, fun _ => rfl, fun _ => rfl, fun _ => rfl, fun _ => rfl⟩

theorem Kept.trans {first second third : PubAddr} (one : first.Kept second)
    (two : second.Kept third) : first.Kept third where
  address := two.address.trans one.address
  waiting known := two.waiting (one.waiting known)
  pubSigningKey known := (two.pubSigningKey (one.waiting known)).trans (one.pubSigningKey known)
  pubEncryptionKey known :=
    (two.pubEncryptionKey (one.waiting known)).trans (one.pubEncryptionKey known)
  nonceTrials known := (two.nonceTrials (one.waiting known)).trans (one.nonceTrials known)
  extraBytes known := (two.extraBytes (one.waiting known)).trans (one.extraBytes known)

/-- An entry that waits may take anything but another address string. -/
theorem Kept.of_waiting {entry entry' : PubAddr} (address : entry'.address = entry.address)
    (waits : entry.waitingPubKey = true) : entry.Kept entry' := by
  have never {claim : Prop} (known : entry.waitingPubKey = false) : claim := by
    rw [waits] at known
    cases known
  exact ⟨address, never, never, never, never, never⟩

/-- Noting the time of a request keeps the address and its keys. -/
theorem Kept.setLastPubKeyRequest (entry : PubAddr) (lastPubKeyRequest : Int64) :
    entry.Kept { entry with lastPubKeyRequest } :=
  ⟨rfl, id, fun _ => rfl, fun _ => rfl, fun _ => rfl, fun _ => rfl⟩

/-- What operations do to an entry in place. -/
structure Updated (platform : Platform) (entry entry' : PubAddr) : Prop where
  kept : entry.Kept entry'
  listed : entry.Listed platform → entry'.Listed platform

theorem Updated.refl (entry : PubAddr) : entry.Updated platform entry :=
  ⟨Kept.refl entry, id⟩

end PubAddr

end BitMRC

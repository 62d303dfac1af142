import BitMRC.Address.Storable
import BitMRC.Node.Coverage
import BitMRC.Wire.Complete

/-!
# What `processObj` throws

An object is handled when its header is there and its handler throws nothing.  Messages
and broadcasts are decrypted inside `try { … } catch (...) { … }`; the handlers of the
other two types, and the constructors of the typed objects, are not guarded.  An entry that
takes keys is stored, and `store` may not come back.
-/

namespace BitMRC

open Foundation UString

variable {platform : Platform}

/-! ## Failures of the parts -/

theorem PubAddr.readPubkeyPlain_fails : Cursor.Fails Exn.Ordinary readPubkeyPlain := by
  unfold readPubkeyPlain
  exact getInt32_fails.bind fun _ => (getUstring_fails 64).bind fun _ =>
    (getUstring_fails 64).bind fun _ => getVarIntB_fails.bind fun _ =>
      getVarIntB_fails.bind fun _ => Cursor.Fails.position.bind fun _ =>
        getVarIntB_fails.bind fun _ => (getUstring_fails _).bind fun _ => .pure _

/-- A signature that cannot be taken apart is the only failure. -/
theorem verifySignature_settles (point : Point) (sign mess : UString) :
    Settles (platform.berDecode sign ≠ none) Exn.Ordinary
      (verifySignature platform point sign mess) := by
  unfold verifySignature
  cases platform.berDecode sign with
  | none => exact (Settles.error trivial).congr (by simp)
  | some signature => exact (Settles.ok _).congr (by simp)

/-- The keys of the address can be encrypted for those who know the address. -/
def Addr.Publishable (draws : Draws platform) (own : Addr) : Prop :=
  platform.agree (beNat (platform.cBytes draws.privEKey 0 32).toUString)
    (platform.cBytes (getPubOfPriv platform own.base.tagE) 0 65) ≠ none

namespace Node

/-- The address is published again when its tag is asked for. -/
def Asked (draws : Draws platform) (tag : UString) (own : Addr) : Prop :=
  tag = own.base.tag ∧ own.base.lastPubKeyRequest + requestInterval < draws.now

end Node

/-! ## Published keys -/

namespace PubAddr

/-- The fields in front of the signature are there. -/
def PubkeyPlain.Complete (data : UString) : Prop :=
  132 ≤ data.length ∧ ∃ nonceTrials first, getVarIntB data 132 = .ok (nonceTrials, first) ∧
    ∃ extraBytes k, getVarIntB data first = .ok (extraBytes, k) ∧
      ∃ sigLen stop, getVarIntB data k = .ok (sigLen, stop)

/-- With both keys in front of it the rest of the text begins at byte 132. -/
theorem readPubkeyPlain_keys_eq {data : UString} (short : data.length < intLimit)
    (room : 132 ≤ data.length) : ∃ signing encryption : UString, signing.length = 64 ∧
      encryption.length = 64 ∧ readPubkeyPlain data 0 = (getVarIntB >>= fun nonceTrials =>
        getVarIntB >>= fun extraBytes => Cursor.position >>= fun k => getVarIntB >>= fun sigLen =>
          getUstring sigLen.toInt32.toInt >>= fun sign => pure {
            signingKey := 4 :: signing
            encryptionKey := 4 :: encryption
            nonceTrials := nonceTrials.toInt32
            extraBytes := extraBytes.toInt32
            k
            sign }) data 132 := by
  simp only [intLimit] at short
  obtain ⟨bitfield, readBitfield⟩ := (@getInt32_fixed intLimit _ data 0 short).1 (by omega)
  have signing : getUstring 64 data (0 + 4) = .ok ((data.drop 4).take 64, 68) :=
    getUstring_eq_ok.mpr ⟨by omega, rfl, rfl⟩
  have encryption : getUstring 64 data 68 = .ok ((data.drop 68).take 64, 132) :=
    getUstring_eq_ok.mpr ⟨by omega, rfl, rfl⟩
  refine ⟨(data.drop 4).take 64, (data.drop 68).take 64, ?_, ?_, ?_⟩
  · rw [List.length_take, List.length_drop]
    omega
  · rw [List.length_take, List.length_drop]
    omega
  · rw [readPubkeyPlain, Cursor.bind_of_ok readBitfield, Cursor.bind_of_ok signing,
      Cursor.bind_of_ok encryption]

/-- Too short a text is missed by the last field at the latest: behind the end of the
text the three numbers are 0, but no string begins there. -/
theorem readPubkeyPlain_room {data : UString} {plain : PubkeyPlain} {stop : Nat}
    (short : data.length < intLimit) (read : readPubkeyPlain data 0 = .ok (plain, stop)) :
    132 ≤ data.length := by
  unfold readPubkeyPlain at read
  obtain ⟨_, first, readBitfield, read⟩ := Cursor.bind_eq_ok.mp read
  obtain ⟨_, second, readSigning, read⟩ := Cursor.bind_eq_ok.mp read
  obtain ⟨_, third, readEncryption, read⟩ := Cursor.bind_eq_ok.mp read
  obtain ⟨_, fourth, readTrials, read⟩ := Cursor.bind_eq_ok.mp read
  obtain ⟨_, fifth, readExtra, read⟩ := Cursor.bind_eq_ok.mp read
  obtain ⟨_, sixth, readPosition, read⟩ := Cursor.bind_eq_ok.mp read
  obtain ⟨_, seventh, readLen, read⟩ := Cursor.bind_eq_ok.mp read
  obtain ⟨_, eighth, readSign, _⟩ := Cursor.bind_eq_ok.mp read
  cases readPosition
  have bitfield := (getInt32_fixed.room short readBitfield).2
  have signing := @getUstring_stop data _ _ 64 _ short (by decide) readSigning
  have encryption := @getUstring_stop data _ _ 64 _ short (by decide) readEncryption
  have trials := getVarIntB_steady.forward short readTrials
  have extra := getVarIntB_steady.forward short readExtra
  have len := getVarIntB_steady.forward short readLen
  have inside := (getUstring_eq_ok.mp readSign).1
  omega

theorem readPubkeyPlain_settles {data : UString} (short : data.length < intLimit) :
    Settles (PubkeyPlain.Complete data) Exn.Ordinary (readPubkeyPlain data 0) := by
  by_cases room : 132 ≤ data.length
  · have signature : ∀ k, k ≤ data.length → ∀ build : Nat → UString → PubkeyPlain,
        Settles (∃ sigLen stop, getVarIntB data k = .ok (sigLen, stop)) Exn.Ordinary
          ((Cursor.position >>= fun k => getVarIntB >>= fun sigLen =>
            getUstring sigLen.toInt32.toInt >>= fun sign =>
              (pure (build k sign) : Reader PubkeyPlain)) data k) := by
      intro k inside build
      rw [Cursor.bind_of_ok (Cursor.position_apply data k)]
      refine (@Cursor.bind_settles UInt8 Exn _ _ _ getVarIntB _ data k (fun _ _ => True)
        getVarIntB_fails fun sigLen stop readLen => ?_).congr (by simp)
      have reachable := getVarIntB_inside short inside readLen
      rw [Cursor.bind_of_ok (getUstring_eq_ok.mpr ⟨reachable, rfl, rfl⟩)]
      exact .ok _
    obtain ⟨signing, encryption, _, _, read⟩ := readPubkeyPlain_keys_eq short room
    rw [read]
    refine (Cursor.bind_settles getVarIntB_fails fun nonceTrials first readTrials =>
      Cursor.bind_settles getVarIntB_fails fun extraBytes k readExtra =>
        signature k ?_ _).congr ?_
    · exact getVarIntB_inside short (getVarIntB_inside short room readTrials) readExtra
    · simp [PubkeyPlain.Complete, room]
  · refine Settles.of_iff (iff_of_false ?_ fun complete => room complete.1)
      (readPubkeyPlain_fails data 0)
    rintro ⟨⟨plain, stop⟩, read⟩
    exact room (readPubkeyPlain_room short read)

theorem readPubkeyPlain_keys {data : UString} {plain : PubkeyPlain}
    (short : data.length < intLimit) (read : readPubkeyPlain.value data 0 = .ok plain) :
    ∃ signing encryption, plain.signingKey = 4 :: signing ∧ signing.length = 64 ∧
      plain.encryptionKey = 4 :: encryption ∧ encryption.length = 64 := by
  obtain ⟨stop, read⟩ := Cursor.value_eq_ok.mp read
  have room := readPubkeyPlain_room short read
  obtain ⟨signing, encryption, length, length', whole⟩ := readPubkeyPlain_keys_eq short room
  rw [whole] at read
  iterate 5 obtain ⟨_, _, _, read⟩ := Cursor.bind_eq_ok.mp read
  cases read
  exact ⟨signing, encryption, rfl, length, rfl, length'⟩

theorem exists_readPoint {key : UString} (length : key.length = 65) :
    ∃ point, (readPoint platform).value key 1 = .ok point := by
  have x : getUstring 32 key 1 = .ok ((key.drop 1).take 32, 33) :=
    getUstring_eq_ok.mpr ⟨by omega, rfl, rfl⟩
  have y : getUstring 32 key 33 = .ok ((key.drop 33).take 32, 65) :=
    getUstring_eq_ok.mpr ⟨by omega, rfl, rfl⟩
  have read : readPoint platform key 1 = .ok (Point.decode
      (platform.cBytes ((key.drop 1).take 32) 0 32)
      (platform.cBytes ((key.drop 33).take 32) 0 32), 65) := by
    rw [readPoint, Cursor.bind_of_ok x, Cursor.bind_of_ok y]
    rfl
  exact ⟨_, Cursor.value_of_ok read⟩

/-- The text that the entry decrypts is complete, and its signature can be taken apart. -/
def Decodable (platform : Platform) (self : PubAddr) (pubkey : PacketPubkey) : Prop :=
  ∀ data, decode platform pubkey.encrypted self.tagE = .ok data →
    PubkeyPlain.Complete data ∧ ∀ plain, readPubkeyPlain.value data 0 = .ok plain →
      platform.berDecode plain.sign ≠ none

theorem acceptPlain_settles (self : PubAddr) {pubkey : PacketPubkey} {data header : UString}
    (short : data.length < intLimit)
    (signed : Object.signedHeader.value pubkey.messagePayload 8 = .ok header) :
    Settles (PubkeyPlain.Complete data ∧ ∀ plain, readPubkeyPlain.value data 0 = .ok plain →
      platform.berDecode plain.sign ≠ none) Exn.Ordinary
      (acceptPlain platform self pubkey data) := by
  refine (Cursor.value_settles (readPubkeyPlain_settles short)).bind fun plain read => ?_
  obtain ⟨signing, _, signingKey, signingLength, _⟩ := readPubkeyPlain_keys short read
  obtain ⟨point, key⟩ := @exists_readPoint platform plain.signingKey
    (by rw [signingKey, List.length_cons, signingLength])
  have text : (getUstring (toInt plain.k)).value data 0 =
      .ok (data.take (sizeT (toInt plain.k))) := by
    apply Cursor.value_of_ok
    exact getUstring_eq_ok.mpr ⟨Nat.zero_le _, rfl, rfl⟩
  simp only [key, signed, text, bind, Except.bind]
  refine (verifySignature_settles point plain.sign _).bind_ok fun verified _ => ?_
  cases verified with
  | true => exact ⟨_, rfl⟩
  | false => exact ⟨_, rfl⟩

theorem decodeFromObj_settles (self : PubAddr) {pubkey : PacketPubkey} {header : UString}
    (short : pubkey.encrypted.length < intLimit)
    (signed : Object.signedHeader.value pubkey.messagePayload 8 = .ok header) :
    Settles (self.Decodable platform pubkey) Exn.Ordinary
      (self.decodeFromObj platform pubkey) := by
  unfold decodeFromObj Decodable
  cases opened : decode platform pubkey.encrypted self.tagE with
  | error failure => exact (Settles.ok _).congr (by simp)
  | ok data =>
      have dataShort := Nat.lt_of_le_of_lt (decode_length opened) short
      refine (acceptPlain_settles self dataShort signed).congr ?_
      constructor
      · rintro met found same
        cases same
        exact met
      · intro all
        exact all data rfl

/-- Keys that are taken have 65 bytes each. -/
theorem decodeFromObj_keys {self after : PubAddr} {pubkey : PacketPubkey}
    (short : pubkey.encrypted.length < intLimit)
    (taken : self.decodeFromObj platform pubkey = .ok (true, after)) :
    after.pubSigningKey.length = 65 ∧ after.pubEncryptionKey.length = 65 := by
  rcases decodeFromObj_cases taken with ⟨refused, _⟩ |
    ⟨data, plain, _, _, _, _, opened, read, _, _, _, _, same⟩
  · cases refused
  · obtain ⟨signing, encryption, signingKey, length, encryptionKey, length'⟩ :=
      readPubkeyPlain_keys (Nat.lt_of_le_of_lt (decode_length opened) short) read
    have stored (key : UString) (whole : key.length = 64) :
        storedKey (4 :: key) = some (4 :: key) := by
      simp [storedKey, whole]
    rw [same, signingKey, encryptionKey]
    simp [loadKeys, stored _ length, stored _ length', length, length']

/-- The entry comes back from the object; with keys that it takes it can be stored. -/
structure Takeable (draws : Draws platform) (entry : PubAddr) (pubkey : PacketPubkey) : Prop where
  decodable : entry.Decodable platform pubkey
  storable : ∀ after, entry.decodeFromObj platform pubkey = .ok (true, after) →
    after.Storable platform (draws.storing after)

end PubAddr

theorem undefined_noInt {failure : Exn} (undefined : failure = .undefined) : failure.NoInt := by
  subst undefined
  exact nofun

namespace Node

variable {draws : Draws platform} {pubkey : PacketPubkey} {header : UString}

theorem takeKey_settles (entry : PubAddr) (short : pubkey.encrypted.length < intLimit)
    (signed : Object.signedHeader.value pubkey.messagePayload 8 = .ok header) :
    Settles (entry.Takeable draws pubkey) Exn.NoInt (takeKey draws pubkey entry) := by
  have stored (found : Bool × PubAddr) (decoded : entry.decodeFromObj platform pubkey = .ok found) :
      Settles (found.1 = true → found.2.Storable platform (draws.storing found.2)) Exn.NoInt
        (do
          if found.1 then
            let _ ← found.2.store platform (draws.storing found.2)
            return found.2
          else
            return found.2) := by
    obtain ⟨valid, after⟩ := found
    cases valid with
    | false => exact (Settles.ok after).congr (by simp)
    | true =>
        obtain ⟨signing, encryption⟩ := PubAddr.decodeFromObj_keys short decoded
        exact (((PubAddr.store_settles signing encryption).map fun _ => after).mono
          fun _ => undefined_noInt).congr (by simp)
  refine (((entry.decodeFromObj_settles short signed).mono fun _ => Exn.Ordinary.noInt).bind
    stored).congr ⟨fun met => ⟨met.1, fun after taken => met.2 _ taken rfl⟩, fun takeable => ?_⟩
  refine ⟨takeable.decodable, ?_⟩
  rintro ⟨valid, after⟩ decoded ⟨⟩
  exact takeable.storable after decoded

theorem takeKeys_settles (short : pubkey.encrypted.length < intLimit)
    (signed : Object.signedHeader.value pubkey.messagePayload 8 = .ok header)
    (entries : List PubAddr) :
    Settles (∀ entry ∈ entries, entry.waitingPubKey ∧ pubkey.tag = entry.tag →
      entry.Takeable draws pubkey) Exn.NoInt (takeKeys draws pubkey entries) := by
  induction entries with
  | nil => exact (Settles.ok _).congr (by simp)
  | cons entry rest ih =>
      unfold takeKeys
      rw [List.forall_mem_cons]
      by_cases asked : entry.waitingPubKey ∧ pubkey.tag = entry.tag
      · rw [if_pos asked, imp_iff_right asked]
        exact (takeKey_settles entry short signed).bind_const fun _ _ => ih.map _
      · rw [if_neg asked]
        exact (ih.map _).congr (and_iff_right fun chosen => absurd chosen asked).symm

end Node

/-! ## Messages and broadcasts -/

/-- The keys of the sender have an address. -/
def Sender.HasAddress (platform : Platform) (sender : Sender) : Prop :=
  BitMRC.HasAddress platform sender.pubSigningKey sender.pubEncryptionKey

namespace Node

variable {draws : Draws platform} {uninit : Uninit} {self : Node}

/-- A message for `own` that goes through all checks comes with keys of an address. -/
def MsgDefined (platform : Platform) (self : Node) (msg : PacketMsg) : Prop :=
  ∀ own recovered plain,
    decryptWith platform msg.objectPayload self.privAddresses = some (own, recovered) →
    readMsgPlain.value recovered 0 = .ok plain → plain.destRipe = own.base.ripe →
    checkSigned platform msg.messagePayload [] recovered plain.sender.pubSigningKey plain.sign
      plain.k = .ok true →
    AckReads plain.ackData → plain.sender.HasAddress platform

/-- The same for a broadcast, which nothing is acknowledged for. -/
def BroadcastDefined (platform : Platform) (self : Node) (msg : PacketBroadcast) : Prop :=
  ∀ subscription recovered plain,
    decryptBroadcastWith platform msg self.subscriptions = some (subscription, recovered) →
    readBroadcastPlain.value recovered 0 = .ok plain →
    checkSigned platform msg.messagePayload (signedTag msg) recovered plain.sender.pubSigningKey
      plain.sign plain.k = .ok true →
    plain.sender.HasAddress platform

/-- What the handler of the type of an object needs. -/
def Handles (draws : Draws platform) (self : Node) (obj : Object) : Prop :=
  if obj.objectType = typeGetpubkey then
    ∀ own ∈ self.privAddresses, Asked draws obj.objectPayload own → own.Publishable draws
  else if obj.objectType = typePubkey then
    (obj.version = 4 → 32 ≤ obj.objectPayload.length) ∧
      ∀ pubkey, PacketPubkey.ofObject obj = .ok pubkey → ∀ entry ∈ self.pubAddresses,
        entry.waitingPubKey ∧ pubkey.tag = entry.tag → entry.Takeable draws pubkey
  else if obj.objectType = typeMsg then
    self.MsgDefined platform (PacketMsg.ofObject obj)
  else if obj.objectType = typeBroadcast then
    (obj.version = 5 → 32 ≤ obj.objectPayload.length) ∧
      ∀ broadcast, PacketBroadcast.ofObject obj = .ok broadcast →
        self.BroadcastDefined platform broadcast
  else
    True

end Node

end BitMRC

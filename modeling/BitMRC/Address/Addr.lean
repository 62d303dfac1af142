import BitMRC.Address.Store

/-!
# `class Addr`

An own address.  `Addr` declares both public keys again, so that the ones of its
base class stay empty; `base` therefore only carries the other fields.
-/

namespace BitMRC

open Foundation UString

/-- What one call draws or finds in memory: the clock, random numbers, and the
contents of the members that no constructor sets. -/
structure Draws (platform : Platform) where
  /-- `time(NULL)`; one reading per call. -/
  now : Int64
  /-- Between -300 and 300 seconds. -/
  random : Int64
  random_range : -300 ≤ random.toInt ∧ random.toInt ≤ 300
  /-- Private exponent of the ephemeral key pair. -/
  ephemeral : Nat
  ephemeral_lt : ephemeral < 256 ^ 32
  ephemeral_valid : ¬(platform.publicPoint ephemeral).IsIdentity
  iv : Block 16
  /-- Random choice of the signer. -/
  seed : Nat
  /-- Members of a packet before anything is assigned to them. -/
  memory : Object
  /-- The local buffer of `hash_f`. -/
  buffer : UString
  /-- For each entry that is stored; no two entries of an address book are the same. -/
  storing : PubAddr → StoreDraws

namespace Draws

variable {platform : Platform} (draws : Draws platform)

/-- Four days, plus or minus five minutes, from now. -/
def expiry : Int64 := draws.now + (4 * 24 * 60 * 60 + draws.random)

/-- A packet whose members are not initialised; its strings are empty. -/
def object : Object := { draws.memory with messagePayload := [], objectPayload := [] }

/-- `privA` of the ephemeral key pair. -/
def privEKey : UString := beBytes 32 draws.ephemeral

/-- `pubA` of the ephemeral key pair. -/
def pubEKey : UString := (platform.publicPoint draws.ephemeral).encode.toUString

end Draws

/-- The DER form of a signature with the private key held in `privSigningKey`. -/
def signText (platform : Platform) (privSigningKey : UString) (seed : Nat) (mess : UString) :
    UString :=
  platform.derEncode (platform.sign (beNat privSigningKey) seed mess)

/-- `text` with the signature of `header` and `text` behind it, encrypted for
`pubKA`; the last part of everything that sends an object. -/
def sealText {platform : Platform} (draws : Draws platform) (privSigningKey header text pubKA :
    UString) : Except Exn UString :=
  let sign := signText platform privSigningKey draws.seed (header ++ text)
  encode platform draws.iv pubKA draws.privEKey draws.pubEKey (appendVarUstringB text sign)

structure Addr where
  base : PubAddr
  pubSigningKey : UString
  privSigningKey : UString
  pubEncryptionKey : UString
  privEncryptionKey : UString
  deriving DecidableEq

namespace Addr

/-- `Addr::Addr()`. -/
def new (uninit : Uninit) : Addr where
  base := PubAddr.new uninit
  pubSigningKey := []
  privSigningKey := []
  pubEncryptionKey := []
  privEncryptionKey := []

/-- The part of `loadKeys` in front of the address: keys of the wrong form leave
the later ones cleared. -/
def storeKeys (self : Addr) (pubE pubS privE privS : UString) : Bool × Addr :=
  let self : Addr := {
    base := { self.base with extraBytes := 1000, nonceTrials := 1000 }
    pubSigningKey := []
    privSigningKey := []
    pubEncryptionKey := []
    privEncryptionKey := [] }
  match PubAddr.storedKey pubE with
  | none => (false, self)
  | some pubEncryptionKey =>
      let self := { self with pubEncryptionKey }
      match PubAddr.storedKey pubS with
      | none => (false, self)
      | some pubSigningKey =>
          let self := { self with pubSigningKey }
          if privE.length = 32 then
            let self := { self with privEncryptionKey := privE }
            if privS.length = 32 then
              (true, { self with privSigningKey := privS })
            else
              (false, self)
          else
            (false, self)

def loadKeys (platform : Platform) (self : Addr) (pubE pubS privE privS : UString)
    (stream version : Int32) : Except Exn (Bool × Addr) := do
  let (stored, self) := self.storeKeys pubE pubS privE privS
  if stored then
    let address ← buildAddressFromKeys platform self.pubSigningKey self.pubEncryptionKey
      stream version
    let base := { self.base with version, stream, empty := false, address }
    let (loaded, base) ← base.loadAddr platform address
    return (loaded, { self with base })
  else
    return (false, self)

/-- The text of a pubkey object up to its signature. -/
def pubkeyText (platform : Platform) (self : Addr) : UString :=
  let plain := appendInt32 [] 1
  let plain := plain ++ (platform.cBytes self.pubSigningKey 1 64).toUString
  let plain := plain ++ (platform.cBytes self.pubEncryptionKey 1 64).toUString
  appendVarIntB (appendVarIntB plain (varInt self.base.nonceTrials))
    (varInt self.base.extraBytes)

/-- `encodePubKey`; it also notes the time in the address. -/
def encodePubKey {platform : Platform} (draws : Draws platform) (self : Addr) :
    Except Exn (Addr × PacketPubkey) := do
  let self := { self with base := { self.base with lastPubKeyRequest := draws.now } }
  let obj := {
    draws.object with
    objectType := typePubkey
    time := draws.expiry
    stream := varInt self.base.stream
    version := 4 }
  let obj := obj.encodePayload
  let header ← Object.signedHeader.value obj.messagePayload 8
  let encrypted ← sealText draws self.privSigningKey (header ++ self.base.tag)
    (self.pubkeyText platform) (getPubOfPriv platform self.base.tagE)
  let pubkey : PacketPubkey := { obj with tag := self.base.tag, encrypted }
  return (self, pubkey.encodeObject)

end Addr

end BitMRC

import BitMRC.Address.Base58
import BitMRC.Crypto.Envelope
import BitMRC.Wire.Object

/-!
# `class PubAddr`

An address, with the public keys behind it once they are known.  `loadAddr`
decodes the address string, `decodeFromObj` takes the keys from a published
object, `buildAddressFromKeys` goes the other way.
-/

namespace BitMRC

open Foundation UString

/-- `appendVarInt_B` of an `int`, which is converted to `uint64_t`. -/
def varInt (i : Int32) : UInt64 := i.toInt64.toUInt64

/-! ## Signatures -/

/-- `point.x.Decode(…); point.y.Decode(…)` on the 64 bytes at the cursor. -/
def readPoint (platform : Platform) : Reader Point := do
  let xA ← getUstring 32
  let yA ← getUstring 32
  return Point.decode (platform.cBytes xA 0 32) (platform.cBytes yA 0 32)

/-- The verification step shared by all three places that check a signature. -/
def verifySignature (platform : Platform) (point : Point) (sign mess : UString) :
    Except Exn Bool :=
  match platform.berDecode sign with
  | none => .error .berDecodeErr
  | some signature => .ok (platform.verify point signature mess)

/-- Public part of the private exponent held in `priv`, prefix included. -/
def getPubOfPriv (platform : Platform) (priv : UString) : UString :=
  4 :: (platform.publicPoint (beNat priv)).minimal

/-! ## Address strings -/

/-- `BM-`. -/
def addressPrefix : UString := [66, 77, 45]

/-- What tags and checksums are computed from. -/
def addressBody (version stream : Int32) (ripe : UString) : UString :=
  appendVarIntB (appendVarIntB [] (varInt version)) (varInt stream) ++ ripe

/-- Keys of 64 bytes get the prefix `0x04`. -/
def withPrefix (key : UString) : UString := if key.length = 64 then 4 :: key else key

/-- RIPEMD-160 of SHA-512 of both keys. -/
def keyDigest (platform : Platform) (skey ekey : UString) : Block 20 :=
  platform.ripemd160 (platform.sha512 (withPrefix skey ++ withPrefix ekey)).toUString

/-- `buildAddressFromKeys`.  The loop over leading zeros has no bound. -/
def buildAddressFromKeys (platform : Platform) (skey ekey : UString)
    (stream version : Int32) : Except Exn UString := do
  let ripe := (keyDigest platform skey ekey).toUString.dropWhile (· = 0)
  if ripe = [] then
    throw .undefined
  let body := addressBody version stream ripe
  let checksum := (platform.doubleSHA512 body).toUString.take 4
  match ← b58enc 256 (body ++ checksum) with
  | none => throw (.runtimeError "cannot encode base58")
  | some ret => return addressPrefix ++ ret

/-- Version, stream and the rest, as `loadAddr` reads them. -/
def readAddressBody : Reader (Int32 × Int32 × UString) := do
  let version ← getVarIntB
  let stream ← getVarIntB
  let ripe ← getRest
  return (version.toInt32, stream.toInt32, ripe)

/-! ## The class -/

structure PubAddr where
  pubSigningKey : UString
  pubEncryptionKey : UString
  /-- The keys are not known. -/
  empty : Bool
  extraBytes : Int32
  nonceTrials : Int32
  version : Int32
  stream : Int32
  ripe : UString
  lastPubKeyRequest : Int64
  address : UString
  tag : UString
  tagE : UString
  deriving DecidableEq

/-- Numbers that the constructor leaves uninitialised. -/
structure Uninit where
  extraBytes : Int32
  nonceTrials : Int32
  version : Int32
  stream : Int32

namespace PubAddr

/-- `PubAddr::PubAddr()`. -/
def new (uninit : Uninit) : PubAddr where
  pubSigningKey := []
  pubEncryptionKey := []
  empty := true
  extraBytes := uninit.extraBytes
  nonceTrials := uninit.nonceTrials
  version := uninit.version
  stream := uninit.stream
  ripe := []
  lastPubKeyRequest := 0
  address := []
  tag := []
  tagE := []

/-- `operator==` compares addresses only. -/
def same (self that : PubAddr) : Bool := self.address = that.address

def waitingPubKey (self : PubAddr) : Bool := self.empty

/-- The checks of `loadAddr` on the decoded bytes: the body when the checksum
behind it is right. -/
def checkedBody (platform : Platform) (decoded : UString) : Except Exn (Option UString) := do
  let checkPos : Nat := (((decoded.length : Int) - 4) % 2 ^ 32).toNat
  let body ← (getUstring (toInt checkPos)).value decoded 0
  let behind ← (getUstring 4).value decoded checkPos
  let checksum := (platform.cBytes behind 0 4).toUString
  if (platform.doubleSHA512 body).toUString.take 4 ≠ checksum then
    return none
  else
    return some body

/-- The last part of `loadAddr`: the fields of a checked body.  A body that does
not fit leaves the new address string behind. -/
def loadBody (platform : Platform) (self : PubAddr) (address body : UString) :
    Bool × PubAddr :=
  let self := { self with address }
  match readAddressBody.value body 0 with
  | .error _ => (false, self)
  | .ok (version, stream, ripe) =>
      if 20 < ripe.length then
        (false, self)
      else if ripe.length < 4 then
        (false, self)
      else
        let ripe := List.replicate (20 - ripe.length) 0 ++ ripe
        let digest := platform.doubleSHA512 (addressBody version stream ripe)
        (true, {
          self with
          version, stream, ripe
          tagE := digest.toUString.take 32
          tag := digest.toUString.drop 32
          empty := true })

/-- The first part of `loadAddr`: the checked bytes behind an address string, with
or without `BM-`. -/
def decodeAddress (platform : Platform) (address : UString) : Except Exn (Option UString) := do
  let bm ← (getUstring 3).value address 0
  let i := if bm = addressPrefix then 3 else 0
  let rest ← getRest.value address i
  match ← b58tobin 50 rest with
  | none => return none
  | some decoded => checkedBody platform decoded

def loadAddr (platform : Platform) (self : PubAddr) (address : UString) :
    Except Exn (Bool × PubAddr) := do
  match ← decodeAddress platform address with
  | none => return (false, self)
  | some body => return loadBody platform self address body

/-- A key as `loadKeys` stores it: `none` is `return false`, and a key of neither
length is dropped. -/
def storedKey (key : UString) : Option UString :=
  if key.length = 64 then
    some (4 :: key)
  else if key.length = 65 then
    if key.head? = some 4 then some key else none
  else
    some []

def loadKeys (self : PubAddr) (skey ekey : UString) (nonce extra : Int32) : Bool × PubAddr :=
  let self := {
    self with
    extraBytes := extra
    nonceTrials := nonce
    pubEncryptionKey := []
    pubSigningKey := [] }
  match storedKey ekey with
  | none => (false, self)
  | some pubEncryptionKey =>
      let self := { self with pubEncryptionKey }
      match storedKey skey with
      | none => (false, self)
      | some pubSigningKey => (true, { self with pubSigningKey, empty := false })

/-! ## `decodeFromObj` -/

/-- The fields of a decrypted pubkey object; `k` is where the signed text ends. -/
structure PubkeyPlain where
  signingKey : UString
  encryptionKey : UString
  nonceTrials : Int32
  extraBytes : Int32
  k : Nat
  sign : UString

/-- The signed part of the text and the position behind it. -/
def readPubkeyPlain : Reader PubkeyPlain := do
  let _bitfield ← getInt32
  let signing ← getUstring 64
  let encryption ← getUstring 64
  let nonceTrials ← getVarIntB
  let extraBytes ← getVarIntB
  let k ← Cursor.position
  let sigLen ← getVarIntB
  let sign ← getUstring sigLen.toInt32.toInt
  return {
    signingKey := 4 :: signing
    encryptionKey := 4 :: encryption
    nonceTrials := nonceTrials.toInt32
    extraBytes := extraBytes.toInt32
    k
    sign }

/-- `decodeFromObj` on text that was decrypted. -/
def acceptPlain (platform : Platform) (self : PubAddr) (pubkey : PacketPubkey)
    (data : UString) : Except Exn (Bool × PubAddr) := do
  let plain ← readPubkeyPlain.value data 0
  let point ← (readPoint platform).value plain.signingKey 1
  let header ← Object.signedHeader.value pubkey.messagePayload 8
  let text ← (getUstring (toInt plain.k)).value data 0
  if ← verifySignature platform point plain.sign (header ++ self.tag ++ text) then
    return (true, (self.loadKeys plain.signingKey plain.encryptionKey plain.nonceTrials
      plain.extraBytes).2)
  else
    return (false, self)

def decodeFromObj (platform : Platform) (self : PubAddr) (pubkey : PacketPubkey) :
    Except Exn (Bool × PubAddr) :=
  match decode platform pubkey.encrypted self.tagE with
  | .error _ => .ok (false, self)
  | .ok data => acceptPlain platform self pubkey data

end PubAddr

end BitMRC

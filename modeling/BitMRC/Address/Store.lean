import BitMRC.Address.PubAddr
import BitMRC.Foundation.Statement
import BitMRC.Storage.QueryResult

/-!
# `PubAddr::store`

The statement that stores an address with its keys.  `get_update_query` encodes both keys from
strings that are freed by then, into arrays that nothing was written to before, and uses the
size that the first call leaves behind for the second one.
-/

namespace BitMRC

open Foundation UString Storage

/-! ## What the call finds -/

/-- Memory that one of the two keys is encoded from, and into. -/
structure KeyDraws where
  /-- The bytes behind `src`, whose string is freed; `none` if they cannot be read any more. -/
  src : Option (Nat → UInt8)
  /-- What `%s` prints of the array before anything is written to it; `none` if there is no
  zero behind it. -/
  array : Option UString

/-- A result of `sql_exec`; memory ends before there are `2^31` elements. -/
structure Answer where
  qr : QueryResult
  few : qr.qrtv.length < 2 ^ 31

/-- What one call of `store` finds besides the address. -/
structure StoreDraws where
  signing : KeyDraws
  encryption : KeyDraws
  /-- `strg->sql_exec`, by the text of the query, which may leave an error or no result; `none`
  for a null pointer. -/
  strg : Option (UString → Option Answer)

/-! ## The statement -/

/-- The bytes of a text in ASCII. -/
def ascii (text : List Char) : UString := text.map fun c => UInt8.ofNat c.toNat

/-- `b58enc` of `len` bytes behind `src` into an array of 128: what `%s` prints of the array,
and `b58sz` behind the call. -/
def encodeKey (key : KeyDraws) (b58sz len : Nat) : Except Exn (Option UString × Nat) :=
  match key.src with
  | none => .error .undefined
  | some src => do
      let text ← b58text ((List.range len).map src)
      if b58sz ≤ text.length then
        return (key.array, text.length + 1)
      else if 128 ≤ text.length then
        throw .undefined
      else
        return (some text, text.length + 1)

/-- The text of the statement. -/
def updateQuery (addr : UString) (version stream : Int32) (b58pubSkey b58pubEkey : UString) :
    UString :=
  ascii "call save_address_and_pubkey ('unlabeled','".toList ++ addr ++ ascii "',".toList ++
    ascii (decimal version.toUInt32.toNat) ++ ascii ",".toList ++
    ascii (decimal stream.toUInt32.toNat) ++ ascii ",'2017-01-01 00:00:01','".toList ++
    b58pubSkey ++ ascii "','".toList ++ b58pubEkey ++ ascii "',0);".toList

/-- `sprintf` into `query`, which has room for 384 bytes. -/
def printQuery (addr : UString) (version stream : Int32) :
    (b58pubSkey b58pubEkey : Option UString) → Except Exn UString
  | some b58pubSkey, some b58pubEkey =>
      let query := updateQuery addr version stream b58pubSkey b58pubEkey
      if query.length < 384 then .ok query else .error .undefined
  | _, _ => .error .undefined

/-- `database_version`. -/
def databaseVersion : CString := ⟨ascii "database_version".toList, by decide⟩

namespace PubAddr

/-- `get_update_query`. -/
def getUpdateQuery (platform : Platform) (draws : StoreDraws) (self : PubAddr) :
    Except Exn UString := do
  let (b58pubSkey, b58sz) ← encodeKey draws.signing 128 self.pubSigningKey.length
  let (b58pubEkey, _) ← encodeKey draws.encryption b58sz self.pubEncryptionKey.length
  let addr ← buildAddressFromKeys platform self.pubSigningKey self.pubEncryptionKey self.stream
    self.version
  printQuery addr self.version self.stream b58pubSkey b58pubEkey

/-- `store`. -/
def store (platform : Platform) (draws : StoreDraws) (self : PubAddr) : Except Exn Bool := do
  let query ← self.getUpdateQuery platform draws
  match draws.strg with
  | none => throw .undefined
  | some sqlExec =>
      match sqlExec query with
      | none => return false
      | some answer => do
          let (bret, _) ← answer.qr.getFieldUint32 (some databaseVersion) (some 0)
          return bret

end PubAddr

end BitMRC

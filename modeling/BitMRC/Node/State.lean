import BitMRC.Address.Addr
import BitMRC.Node.Pow
import BitMRC.Utils.HashTable

/-!
# `class BitMRC`

The state of a node and the operations that other operations are built from:
validating an object, spreading it, queueing an object for its proof of work,
and the three address lists.
-/

namespace BitMRC

open UString

/-- `struct message`. -/
structure Message where
  «from» : UString
  «to» : UString
  info : UString
  signature : UString
  deriving DecidableEq

/-- The members of `BitMRC` that its methods read and write.  Queues list their
oldest element first; `nodes` are the peers by address and port. -/
structure Node where
  pubAddresses : List PubAddr
  privAddresses : List Addr
  subscriptions : List PubAddr
  newPackets : List Packet
  newMessages : List Message
  newInv : List (Block 32)
  objects : List Object
  messages : HashTable Message
  sharedObj : HashTable UString
  nodes : List (UString × UString)

namespace Node

/-- A node that has loaded nothing. -/
def new : Node where
  pubAddresses := []
  privAddresses := []
  subscriptions := []
  newPackets := []
  newMessages := []
  newInv := []
  objects := []
  messages := HashTable.empty
  sharedObj := HashTable.empty
  nodes := []

theorem inventoryHash_fits : 0 + 32 ≤ 64 := by decide

/-- `inventoryHash`. -/
def inventoryHash (platform : Platform) (data : UString) : Block 32 :=
  (platform.doubleSHA512 data).slice 0 32 inventoryHash_fits

/-! ## Objects -/

def validateObj (platform : Platform) (now : Int64) (obj : Object) : Except Exn Bool :=
  -- too large
  if 0x40000 < obj.messagePayload.length then
    .ok false
  -- too much time
  else if 28 * 24 * 60 * 60 + 10800 < obj.time - now then
    .ok false
  -- too in the past
  else if obj.time - now < -3600 then
    .ok false
  else
    checkPow platform now obj.messagePayload obj.time.toUInt64

/-- Validation returns for every payload that holds a nonce. -/
theorem exists_validateObj (platform : Platform) (now : Int64) {obj : Object}
    (eight : 8 ≤ obj.messagePayload.length) :
    ∃ valid, validateObj platform now obj = .ok valid := by
  unfold validateObj
  split
  next => exact ⟨false, rfl⟩
  split
  next => exact ⟨false, rfl⟩
  split
  next => exact ⟨false, rfl⟩
  next small near recent =>
    have low : (-3600 : Int64).toInt = -3600 := by decide
    have high : (28 * 24 * 60 * 60 + 10800 : Int64).toInt = 2430000 := by decide
    rw [Int64.lt_iff_toInt_lt] at near recent
    rw [high] at near
    rw [low] at recent
    exact exists_checkPow platform eight (by omega) (by omega) (by omega)

/-- `sharedObj.insert` with the inventory hash of the payload: the return code and
the node. -/
def share (platform : Platform) (self : Node) (buffer payload : UString) : Int × Node :=
  let (present, sharedObj) :=
    self.sharedObj.insert buffer payload (inventoryHash platform payload).toUString
  (present, { self with sharedObj })

/-- Known or not, the payload is in the table then. -/
theorem share_stored (platform : Platform) (self : Node) (buffer payload : UString) :
    (self.share platform buffer payload).2.sharedObj.Stored payload := by
  obtain ⟨cur, member, same⟩ := HashTable.exists_mem_insert self.sharedObj buffer payload
    (inventoryHash platform payload).toUString
  exact ⟨_, cur, member, same⟩

/-- `new_inv.push(tag)`. -/
def pushInv (platform : Platform) (self : Node) (payload : UString) : Node :=
  { self with newInv := self.newInv ++ [inventoryHash platform payload] }

def propagate {platform : Platform} (draws : Draws platform) (self : Node) (obj : Object) :
    Except Exn Node := do
  if ← validateObj platform draws.now obj then
    let (_, self) := self.share platform draws.buffer obj.messagePayload
    return self.pushInv platform obj.messagePayload
  else
    return self

/-- `object`, null padded. -/
def objectCommand : Block 12 := ⟨[111, 98, 106, 101, 99, 116, 0, 0, 0, 0, 0, 0], rfl⟩

/-- What `sendObj` makes of an object; its time is already set. -/
def queued (obj : Object) : Object :=
  { obj with nonce := 0, command := objectCommand }.encodePayload

def sendObj (self : Node) (obj : Object) : Node :=
  { self with objects := self.objects ++ [queued obj] }

/-- What `processPOW` makes of a queued object once the nonce is found. -/
def withNonce (obj : Object) (nonce : UInt64) : Object := { obj with nonce }.encodePayload

/-- Every search starts from nonce 0. -/
theorem queued_messagePayload (obj : Object) : (queued obj).messagePayload =
    appendInt64 [] (0 : UInt64).toInt64 ++ (obj.header ++ obj.objectPayload) :=
  Object.encodePayload_messagePayload _

/-- Queueing and the nonce touch neither the header nor the rest. -/
theorem withNonce_queued_payload (obj : Object) (nonce : UInt64) :
    (withNonce (queued obj) nonce).messagePayload =
      appendInt64 [] nonce.toInt64 ++ (obj.header ++ obj.objectPayload) :=
  Object.encodePayload_messagePayload _

/-- One round of `processPOW`: the search runs at `earlier`, the validation at the
time of `draws`.  Without a result the search goes on. -/
def processPOW {platform : Platform} (earlier : Int64) (fuel : Nat) (draws : Draws platform)
    (self : Node) : Except Exn (Option Node) :=
  match self.objects with
  | [] => .ok none
  | obj :: rest => do
      let self := { self with objects := rest }
      if cStr obj.command.toUString ≠ cStr objectCommand.toUString then
        return some self
      else
        match ← searchPow platform earlier fuel obj.messagePayload obj.time.toUInt64 with
        | none => return none
        | some nonce => return some (← self.propagate draws (withNonce obj nonce))

/-! ## Packets -/

/-- `Magic`. -/
def magic : UInt32 := 0xE9BEB4D9

/-- `setChecksum_Lenght_Magic`. -/
def setChecksumLenghtMagic (platform : Platform) (packet : Packet) : Packet := {
  packet with
  length := UInt32.ofNat packet.messagePayload.length
  checksum := (platform.sha512 packet.messagePayload).slice 0 4 (by decide)
  magic }

def send (platform : Platform) (self : Node) (packet : Packet) : Node :=
  { self with newPackets := self.newPackets ++ [setChecksumLenghtMagic platform packet] }

/-! ## Address lists -/

/-- The walk of `addAddr(PubAddr)`: the first entry with the same address takes the
new keys if it waits for them; without one the address is appended. -/
def mergeAddr (address : PubAddr) : List PubAddr → List PubAddr
  | [] => [address]
  | entry :: rest =>
      if entry.same address then
        (if !address.waitingPubKey && entry.waitingPubKey then address else entry) :: rest
      else
        entry :: mergeAddr address rest

/-- `addAddr(PubAddr)`. -/
def addAddr (self : Node) (address : PubAddr) : Node := {
  self with
  pubAddresses :=
    if address.address = [] then self.pubAddresses else mergeAddr address self.pubAddresses }

/-- `addAddr(Addr)`. -/
def addPrivAddr (self : Node) (address : Addr) : Node := {
  self with
  privAddresses :=
    if address.base.address = [] then
      self.privAddresses
    else if self.privAddresses.any fun entry => entry.base.same address.base then
      self.privAddresses
    else
      self.privAddresses ++ [address] }

def addSubscription (self : Node) (address : PubAddr) : Node := {
  self with
  subscriptions :=
    if address.address = [] then
      self.subscriptions
    else if self.subscriptions.any fun entry => entry.same address then
      self.subscriptions
    else
      self.subscriptions ++ [address] }

end Node

end BitMRC

import BitMRC.Utils.BigEndian

/-!
# Crypto++ as a parameter

The program calls Crypto++ for hashes, ECDH and ECDSA over secp256k1, AES-CBC,
HMAC and the DER/BER form of signatures.  None of that code is part of the
repository, so it is a parameter, `Platform`.  Output sizes are part of the
types; the algebraic laws that the library documents are collected in
`Platform.Correct` and are assumed only where a result needs them.
-/

namespace BitMRC

/-! ## Curve points -/

/-- Affine coordinates of a secp256k1 point; the identity has both coordinates
zero. -/
structure Point where
  x : Nat
  y : Nat
  x_lt : x < 256 ^ 32
  y_lt : y < 256 ^ 32
  deriving DecidableEq

namespace Point

/-- The neutral element, which is no valid public key. -/
def IsIdentity (point : Point) : Prop := point.x = 0 ∧ point.y = 0

instance (point : Point) : Decidable point.IsIdentity :=
  inferInstanceAs (Decidable (_ ∧ _))

/-- `point.x.Decode(…, 32); point.y.Decode(…, 32)`. -/
def decode (xA yA : Block 32) : Point where
  x := beNat xA.toUString
  y := beNat yA.toUString
  x_lt := by simpa using beNat_lt xA.toUString
  y_lt := by simpa using beNat_lt yA.toUString

/-- `X ‖ Y`, a public key without its prefix. -/
def coordinates (point : Point) : UString := beBytes 32 point.x ++ beBytes 32 point.y

@[simp] theorem coordinates_length (point : Point) : point.coordinates.length = 64 := by
  simp [coordinates]

/-- Both coordinates, each without leading zeros. -/
def minimal (point : Point) : UString :=
  beBytes (minEncodedSize point.x) point.x ++ beBytes (minEncodedSize point.y) point.y

/-- The uncompressed form `0x04 ‖ X ‖ Y`. -/
def encode (point : Point) : Block 65 := ⟨4 :: point.coordinates, by simp⟩

/-- Both coordinates need all their 32 bytes. -/
def FullWidth (point : Point) : Prop :=
  minEncodedSize point.x = 32 ∧ minEncodedSize point.y = 32

instance (point : Point) : Decidable point.FullWidth :=
  inferInstanceAs (Decidable (_ ∧ _))

theorem FullWidth.not_identity {point : Point} (full : point.FullWidth) :
    ¬point.IsIdentity := by
  intro identity
  have width := full.1
  rw [identity.1] at width
  exact absurd width (by decide)

end Point

/-! ## The library -/

/-- What the program uses of Crypto++, and the bytes that lie behind the end of
a string in memory where the program reads past it. -/
structure Platform where
  sha512 : UString → Block 64
  ripemd160 : UString → Block 20
  hmacSHA256 : Block 32 → UString → Block 32
  /-- `CBC_Mode<AES>::Encryption` with padding, by key and IV. -/
  aesEncrypt : Block 32 → Block 16 → UString → UString
  aesEncrypt_length : ∀ key iv plain,
    (aesEncrypt key iv plain).length = plain.length + (16 - plain.length % 16)
  /-- `CBC_Mode<AES>::Decryption` with removal of the padding. -/
  aesDecrypt : Block 32 → Block 16 → UString → Option UString
  aesDecrypt_length : ∀ key iv cipher plain, aesDecrypt key iv cipher = some plain →
    plain.length ≤ cipher.length
  /-- `MakePublicKey` of a private exponent. -/
  publicPoint : Nat → Point
  /-- `ECDH::Domain::Agree` of a private exponent and an encoded public key. -/
  agree : Nat → Block 65 → Option (Block 32)
  /-- ECDSA with SHA-1 by a private exponent; the second argument is the random
  choice of the signer. -/
  sign : Nat → Nat → UString → Block 64
  verify : Point → Block 64 → UString → Bool
  /-- The DER sequence of the two integers of a signature. -/
  derEncode : Block 64 → UString
  derEncode_length : ∀ signature, (derEncode signature).length ≤ 72
  /-- The two integers of a BER sequence, each encoded into 32 bytes. -/
  berDecode : UString → Option (Block 64)
  heap : Nat → UInt8

namespace Platform

/-- `encode undoes decode`, `agreement is symmetric`, `signatures verify`, for
private exponents that have a public key at all. -/
structure Correct (platform : Platform) : Prop where
  decrypt_encrypt : ∀ key iv plain,
    platform.aesDecrypt key iv (platform.aesEncrypt key iv plain) = some plain
  agree_symm : ∀ left right, ¬(platform.publicPoint left).IsIdentity →
    ¬(platform.publicPoint right).IsIdentity →
    ∃ shared, platform.agree left (platform.publicPoint right).encode = some shared ∧
      platform.agree right (platform.publicPoint left).encode = some shared
  verify_sign : ∀ exponent seed text, ¬(platform.publicPoint exponent).IsIdentity →
    platform.verify (platform.publicPoint exponent)
      (platform.sign exponent seed text) text = true
  ber_der : ∀ signature, platform.berDecode (platform.derEncode signature) = some signature

variable (platform : Platform)

/-- SHA-512 of SHA-512. -/
def doubleSHA512 (data : UString) : Block 64 :=
  platform.sha512 (platform.sha512 data).toUString

/-- The byte at `s.c_str()[index]`. -/
def cByte (s : UString) (index : Nat) : UInt8 :=
  (s ++ [0]).getD index (platform.heap index)

/-- `size` bytes from `s.c_str() + offset` on. -/
def cBytes (s : UString) (offset size : Nat) : Block size :=
  ⟨List.ofFn fun index : Fin size => platform.cByte s (offset + index), by simp⟩

/-- Inside the string these are its own bytes. -/
theorem cBytes_of_le {s : UString} {offset size : Nat} (inside : offset + size ≤ s.length) :
    (platform.cBytes s offset size).toUString = (s.drop offset).take size := by
  apply List.ext_getElem
  · simp
    omega
  · intro index left right
    have small : index < size := by simpa using left
    have within : offset + index < s.length := by omega
    simp [cBytes, Block.toUString, cByte, List.getD_eq_getElem?_getD,
      List.getElem?_append_left within, within]

theorem cBytes_self {size : Nat} {s : UString} (equal : s.length = size) :
    (platform.cBytes s 0 size).toUString = s := by
  rw [cBytes_of_le platform (by omega), List.drop_zero, ← equal, List.take_length]

theorem cBytes_block {size : Nat} (block : Block size) :
    platform.cBytes block.toUString 0 size = block :=
  Block.ext (cBytes_self platform block.toUString_length)

end Platform

end BitMRC

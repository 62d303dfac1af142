import BitMRC.Crypto.Platform

/-!
# A platform that satisfies the assumptions

Every primitive is replaced by a simple one with the same interface: digests and
MACs are the first bytes of their input, encryption only pads, and a signature
names its signer and its text.  `sample_correct` shows that the assumptions of
`Platform.Correct` can hold together; concrete runs are evaluated on `sample`.
-/

namespace BitMRC

namespace Platform

/-- The first `size` bytes of some data followed by zeros. -/
def fit (size : Nat) (data : UString) : Block size :=
  ⟨(data ++ List.replicate size 0).take size, by simp⟩

/-- The number of padding bytes, repeated, behind the text. -/
def pad (plain : UString) : UString :=
  let count := 16 - plain.length % 16
  plain ++ List.replicate count (UInt8.ofNat count)

/-- Removal of the padding. -/
def unpad (padded : UString) : Option UString :=
  match padded.getLast? with
  | none => none
  | some count => some (padded.take (padded.length - count.toNat))

theorem unpad_pad (plain : UString) : unpad (pad plain) = some plain := by
  have positive : 16 - plain.length % 16 ≠ 0 := by omega
  have small : (UInt8.ofNat (16 - plain.length % 16)).toNat = 16 - plain.length % 16 := by
    rw [UInt8.toNat_ofNat']
    omega
  have last : (pad plain).getLast? = some (UInt8.ofNat (16 - plain.length % 16)) := by
    rw [pad, List.getLast?_append, List.getLast?_replicate, if_neg positive]
    rfl
  rw [unpad, last]
  have rest : (pad plain).length - (16 - plain.length % 16) = plain.length := by
    simp only [pad, List.length_append, List.length_replicate]
    omega
  simp only [small, rest]
  rw [pad, List.take_left]

/-- A point for every private exponent, with two coordinates of full width. -/
def samplePoint (exponent : Nat) : Point where
  x := 2 ^ 255 + exponent % 2 ^ 255
  y := 2 ^ 255
  x_lt := by
    have small := Nat.mod_lt exponent (show 0 < 2 ^ 255 by decide)
    have top : 256 ^ 32 = 2 ^ 255 + 2 ^ 255 := by decide +kernel
    omega
  y_lt := by decide +kernel

/-- A signature: the first coordinate of the signer and the start of the text. -/
def sampleSignature (signer : Point) (text : UString) : Block 64 :=
  ⟨beBytes 32 signer.x ++ (fit 32 text).toUString, by simp⟩

/-- The sum of the two exponents, from one exponent and an encoded point. -/
def sampleAgree (exponent : Nat) (pubK : Block 65) : Block 32 :=
  ⟨beBytes 32 (exponent % 2 ^ 255 + beNat ((pubK.toUString.drop 1).take 32)), by simp⟩

theorem sampleAgree_symm (left right : Nat) :
    sampleAgree left (samplePoint right).encode = sampleAgree right (samplePoint left).encode := by
  have first (exponent : Nat) :
      beNat (((samplePoint exponent).encode.toUString.drop 1).take 32) =
        2 ^ 255 + exponent % 2 ^ 255 := by
    have bytes : ((samplePoint exponent).encode.toUString.drop 1).take 32 =
        beBytes 32 (samplePoint exponent).x :=
      List.take_left' (beBytes_length 32 _)
    rw [bytes, beNat_beBytes, Nat.mod_eq_of_lt (samplePoint exponent).x_lt]
    rfl
  apply Block.ext
  have symmetric : left % 2 ^ 255 + (2 ^ 255 + right % 2 ^ 255) =
      right % 2 ^ 255 + (2 ^ 255 + left % 2 ^ 255) := Nat.add_comm _ _ |>.trans (by ring)
  simp only [sampleAgree, Block.toUString] at first ⊢
  rw [first left, first right, symmetric]

def sample : Platform where
  sha512 := fit 64
  ripemd160 := fit 20
  hmacSHA256 := fun _ => fit 32
  aesEncrypt := fun _ _ => pad
  aesEncrypt_length := by
    intro _ _ plain
    simp [pad]
  aesDecrypt := fun _ _ => unpad
  aesDecrypt_length := by
    intro _ _ cipher plain opened
    unfold unpad at opened
    split at opened
    next => cases opened
    next =>
      cases opened
      simp
  publicPoint := samplePoint
  agree := fun exponent pubK => some (sampleAgree exponent pubK)
  sign := fun exponent _ text => sampleSignature (samplePoint exponent) text
  verify := fun signer signature text => signature = sampleSignature signer text
  derEncode := Block.toUString
  derEncode_length := by simp
  berDecode := fun sign => if length : sign.length = 64 then some ⟨sign, length⟩ else none
  heap := fun _ => 0

theorem minEncodedSize_of_top {n : Nat} (low : 2 ^ 255 ≤ n) (high : n < 2 ^ 256) :
    minEncodedSize n = 32 := by
  have log : n.log2 = 255 := (Nat.log2_eq_iff (by omega)).mpr ⟨low, high⟩
  rw [minEncodedSize, log]

theorem sample_fullWidth (exponent : Nat) : (sample.publicPoint exponent).FullWidth := by
  have small := Nat.mod_lt exponent (show 0 < 2 ^ 255 by decide)
  constructor
  · exact minEncodedSize_of_top (Nat.le_add_right _ _) (Nat.add_lt_add_left small _)
  · exact minEncodedSize_of_top (Nat.le_refl _) (samplePoint exponent).y_lt

theorem sample_correct : sample.Correct where
  decrypt_encrypt := fun _ _ plain => unpad_pad plain
  agree_symm := by
    intro left right _ _
    exact ⟨_, rfl, congrArg some (sampleAgree_symm right left)⟩
  verify_sign := by
    intro exponent _ text _
    exact decide_eq_true rfl
  ber_der := by
    intro signature
    exact dif_pos signature.toUString_length

end Platform

end BitMRC

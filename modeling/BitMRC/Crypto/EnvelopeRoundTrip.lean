import BitMRC.Crypto.Envelope
import BitMRC.Crypto.Sample

/-!
# The two directions of the encryption envelope

`PubAddr::encode` lays out IV, curve type, two coordinates with their lengths, cipher text
and MAC; `PubAddr::decode` finds all of them again, the last two from the end of the data.
Both ends of the key agreement are key pairs; of Crypto++ only symmetry of the key agreement
and inversion of CBC encryption are assumed.
-/

namespace BitMRC

open Foundation UString

/-- A private exponent in its 32 bytes and its uncompressed public key of 65 bytes. -/
structure KeyPair (platform : Platform) (priv pub : UString) : Prop where
  priv_length : priv.length = 32
  valid : ¬(platform.publicPoint (beNat priv)).IsIdentity
  pub_eq : pub = (platform.publicPoint (beNat priv)).encode.toUString

namespace KeyPair

variable {platform : Platform} {priv pub : UString}

/-- The exponent that `SecByteBlock privA(privK.c_str(), 32)` holds. -/
theorem exponent (pair : KeyPair platform priv pub) :
    (platform.cBytes priv 0 32).toUString = priv :=
  platform.cBytes_self pair.priv_length

/-- The public key that `SecByteBlock pubA(pubKA.c_str(), 65)` holds. -/
theorem element (pair : KeyPair platform priv pub) :
    platform.cBytes pub 0 65 = (platform.publicPoint (beNat priv)).encode := by
  rw [pair.pub_eq, platform.cBytes_block]

end KeyPair

/-- What `encode` does once the key agreement has succeeded. -/
theorem encode_of_agree {platform : Platform} {iv : Block 16}
    {pubKA privKB pubKB plain : UString} {shared : Block 32}
    (sender : platform.agree (beNat (platform.cBytes privKB 0 32).toUString)
      (platform.cBytes pubKA 0 65) = some shared) :
    encode platform iv pubKA privKB pubKB plain =
      .ok (envelopeBody platform iv pubKB
          (platform.aesEncrypt (sessionKeys platform shared).key iv plain) ++
        (platform.hmacSHA256 (sessionKeys platform shared).hkey
          (envelopeBody platform iv pubKB
            (platform.aesEncrypt (sessionKeys platform shared).key iv plain))).toUString) := by
  rw [encode, sender]

/-- Between two key pairs `decode` undoes `encode`, and throws once the MAC is replaced by any
other 32 bytes. -/
theorem envelope_roundTrip (platform : Platform)
    (symmetric : ∀ left right, ¬(platform.publicPoint left).IsIdentity →
      ¬(platform.publicPoint right).IsIdentity →
      ∃ shared, platform.agree left (platform.publicPoint right).encode = some shared ∧
        platform.agree right (platform.publicPoint left).encode = some shared)
    (undoes : ∀ key iv plain,
      platform.aesDecrypt key iv (platform.aesEncrypt key iv plain) = some plain)
    {privA pubA privB pubB plain : UString} (recipient : KeyPair platform privA pubA)
    (ephemeral : KeyPair platform privB pubB) (iv : Block 16) (short : plain.length < 2 ^ 30) :
    ∃ (body : UString) (mac : Block 32),
      encode platform iv pubA privB pubB plain = .ok (body ++ mac.toUString) ∧
      decode platform (body ++ mac.toUString) privA = .ok plain ∧
      ∀ other : Block 32, other ≠ mac →
        decode platform (body ++ other.toUString) privA =
          .error (.runtimeError "mac doesnt match") := by
  obtain ⟨shared, receives, sends⟩ :=
    symmetric (beNat privA) (beNat privB) recipient.valid ephemeral.valid
  rw [← recipient.element, ← ephemeral.exponent] at sends
  rw [← recipient.exponent] at receives
  have encoded := @encode_of_agree _ iv _ _ pubB plain _ sends
  have cipherLength := platform.aesEncrypt_length (sessionKeys platform shared).key iv plain
  have fits (mac : Block 32) : (envelopeBody platform iv pubB
      (platform.aesEncrypt (sessionKeys platform shared).key iv plain) ++
        mac.toUString).length < intLimit := by
    rw [List.length_append, envelopeBody_length, cipherLength, Block.toUString_length, intLimit]
    omega
  rw [ephemeral.pub_eq] at encoded fits ⊢
  refine ⟨_, _, encoded, ?_, ?_⟩
  · rw [decode_body receives (fits _), if_neg (not_not_intro rfl), undoes]
  · intro other changed
    rw [decode_body receives (fits other), if_pos changed.symm]

/-- Two key pairs of `Platform.sample` and a text of three bytes. -/
theorem envelope_roundTrip_sample :
    ∃ (body : UString) (mac : Block 32),
      encode Platform.sample ⟨List.replicate 16 9, rfl⟩
          (Platform.sample.publicPoint (beNat (List.replicate 32 1))).encode.toUString
          (List.replicate 32 2)
          (Platform.sample.publicPoint (beNat (List.replicate 32 2))).encode.toUString
          [70, 0, 113] = .ok (body ++ mac.toUString) ∧
      decode Platform.sample (body ++ mac.toUString) (List.replicate 32 1) = .ok [70, 0, 113] ∧
      ∀ other : Block 32, other ≠ mac →
        decode Platform.sample (body ++ other.toUString) (List.replicate 32 1) =
          .error (.runtimeError "mac doesnt match") :=
  envelope_roundTrip Platform.sample Platform.sample_correct.agree_symm
    Platform.sample_correct.decrypt_encrypt
    ⟨rfl, (Platform.sample_fullWidth _).not_identity, rfl⟩
    ⟨rfl, (Platform.sample_fullWidth _).not_identity, rfl⟩ ⟨List.replicate 16 9, rfl⟩ (by decide)

end BitMRC

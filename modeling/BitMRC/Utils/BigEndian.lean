import BitMRC.Foundation.Positional
import BitMRC.Utils.UString

/-!
# Numbers as big-endian byte strings

`CryptoPP::Integer` and the base-58 code exchange numbers with byte strings in
which the most significant byte comes first.
-/

namespace BitMRC

open Foundation

/-- The value of a byte string; `Integer::Decode`. -/
def beNat (bytes : UString) : Nat := Nat.ofDigits 256 (bytes.reverse.map UInt8.toNat)

/-- The `len` low bytes of a number; `Integer::Encode` into `len` bytes. -/
def beBytes (len n : Nat) : UString := ((lowDigits 256 len n).map UInt8.ofNat).reverse

@[simp] theorem beBytes_length (len n : Nat) : (beBytes len n).length = len := by
  simp [beBytes]

theorem digits_toNat_ofNat {digits : List Nat} (bounded : ∀ digit ∈ digits, digit < 256) :
    (digits.map UInt8.ofNat).map UInt8.toNat = digits := by
  rw [List.map_map]
  conv_rhs => rw [← List.map_id digits]
  apply List.map_congr_left
  intro digit member
  have small := bounded digit member
  simp only [Function.comp_apply, UInt8.toNat_ofNat', id_eq]
  omega

theorem bytes_ofNat_toNat (bytes : UString) :
    (bytes.map UInt8.toNat).map UInt8.ofNat = bytes := by
  rw [List.map_map]
  conv_rhs => rw [← List.map_id bytes]
  apply List.map_congr_left
  intro byte member
  simp

theorem toNat_digits_lt (bytes : UString) :
    ∀ digit ∈ bytes.map UInt8.toNat, digit < 256 := by
  intro digit member
  obtain ⟨byte, inBytes, equal⟩ := List.mem_map.mp member
  exact equal ▸ byte.toNat_lt

theorem beNat_beBytes (len n : Nat) : beNat (beBytes len n) = n % 256 ^ len := by
  rw [beNat, beBytes, List.reverse_reverse,
    digits_toNat_ofNat (lowDigits_lt (by decide) len n), ofDigits_lowDigits]

theorem beNat_lt (bytes : UString) : beNat bytes < 256 ^ bytes.length := by
  have bound := Nat.ofDigits_lt_base_pow_length (b := 256) (by decide)
    (fun digit => toNat_digits_lt bytes.reverse digit)
  simpa [beNat] using bound

/-- A byte string is the encoding of its value at its own length. -/
theorem beBytes_beNat (bytes : UString) : beBytes bytes.length (beNat bytes) = bytes := by
  have digits := lowDigits_ofDigits (toNat_digits_lt bytes.reverse)
  rw [List.length_map, List.length_reverse] at digits
  rw [beBytes, beNat, digits, bytes_ofNat_toNat, List.reverse_reverse]

/-- A longer encoding of a small number has zeros in front. -/
theorem beBytes_of_lt {len n : Nat} (small : n < 256 ^ len) (extra : Nat) :
    beBytes (len + extra) n = List.replicate extra 0 ++ beBytes len n := by
  simp [beBytes, lowDigits_of_lt (by decide : 1 < 256) small]

theorem beNat_append_byte (bytes : UString) (byte : UInt8) :
    beNat (bytes ++ [byte]) = 256 * beNat bytes + byte.toNat := by
  have last := ofDigits_reverse_concat 256 byte.toNat (bytes.map UInt8.toNat)
  rw [beNat, beNat, ← List.map_reverse] at *
  simpa [List.map_reverse] using last

/-- `Integer::MinEncodedSize`; zero still takes one byte. -/
def minEncodedSize (n : Nat) : Nat := n.log2 / 8 + 1

end BitMRC

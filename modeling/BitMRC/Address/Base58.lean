import BitMRC.Utils.BigEndian
import BitMRC.Utils.Exn

/-!
# `base58.cpp`

`b58enc` and `b58tobin` change the base of a number held in an array.  The C
arrays hold the most significant digit first; here they are lists with the least
significant digit first, the order in which both inner loops walk.
-/

namespace BitMRC

open Foundation

/-- `b58digits_map`. -/
def b58digitsMap : List Int := [
  -1,-1,-1,-1,-1,-1,-1,-1,-1,-1,-1,-1,-1,-1,-1,-1,
  -1,-1,-1,-1,-1,-1,-1,-1,-1,-1,-1,-1,-1,-1,-1,-1,
  -1,-1,-1,-1,-1,-1,-1,-1,-1,-1,-1,-1,-1,-1,-1,-1,
  -1, 0, 1, 2, 3, 4, 5, 6, 7, 8,-1,-1,-1,-1,-1,-1,
  -1, 9,10,11,12,13,14,15,16,-1,17,18,19,20,21,-1,
  22,23,24,25,26,27,28,29,30,31,32,-1,-1,-1,-1,-1,
  -1,33,34,35,36,37,38,39,40,41,42,43,-1,44,45,46,
  47,48,49,50,51,52,53,54,55,56,57,-1,-1,-1,-1,-1]

/-- `b58digits_ordered`: `1`-`9`, `A`-`Z` and `a`-`z` without `I`, `O` and `l`. -/
def b58digitsOrdered : UString := [
  49, 50, 51, 52, 53, 54, 55, 56, 57,
  65, 66, 67, 68, 69, 70, 71, 72, 74, 75, 76, 77, 78, 80, 81, 82, 83, 84, 85, 86,
  87, 88, 89, 90,
  97, 98, 99, 100, 101, 102, 103, 104, 105, 106, 107, 109, 110, 111, 112, 113, 114,
  115, 116, 117, 118, 119, 120, 121, 122]

/-- The character of a digit. -/
def b58Char (digit : Nat) : UInt8 := b58digitsOrdered.getD digit 0

/-- The entry of `b58digits_map` at a character. -/
def b58Digit (byte : UInt8) : Int := b58digitsMap.getD byte.toNat (-1)

/-! ## Decoding -/

/-- The loop that counts leading zeros, in an `unsigned`.  It looks up every byte it
meets, also those the table of 128 entries does not cover. -/
def countOnes : UString → Except Exn (Nat × UString)
  | [] => .ok (0, [])
  | byte :: rest =>
      if 128 ≤ byte.toNat then
        .error .undefined
      else if b58Digit byte = 0 then
        match countOnes rest with
        | .ok (count, others) => .ok ((count + 1) % 2 ^ 32, others)
        | .error failure => .error failure
      else
        .ok (0, byte :: rest)

/-- The main loop of `b58tobin` on the words `outi`; `none` is `return false`.
The test against `zeromask` asks for a bit of `outi[0]` from `8 * bytesleft` on. -/
def decodeDigits (bytesleft : Nat) : List Nat → UString → Option (List Nat)
  | outi, [] => some outi
  | outi, byte :: rest =>
      if byte &&& 0x80 ≠ 0 then
        none
      else if b58Digit byte = -1 then
        none
      else
        let (outi', c) := mulAdd (2 ^ 32) 58 outi (b58Digit byte).toNat
        if c ≠ 0 then
          none
        else if bytesleft ≠ 0 ∧ 2 ^ (8 * bytesleft) ≤ outi'.getLastD 0 then
          none
        else
          decodeDigits bytesleft outi' rest

/-- The `binsz` bytes of the words, the most significant first. -/
def wordBytes (binsz : Nat) (outi : List Nat) : UString :=
  (((outi.flatMap (lowDigits 256 4)).take binsz).map UInt8.ofNat).reverse

/-- `b58tobin` with room for `binsz` bytes.  With more leading `1` digits than
leading zero bytes it reads in front of its output array. -/
def b58tobin (binsz : Nat) (b58 : UString) : Except Exn (Option UString) := do
  let outisz := (binsz + 3) / 4
  let (zerocount, digits) ← countOnes (b58.takeWhile (· ≠ 0))
  match decodeDigits (binsz % 4) (List.replicate outisz 0) digits with
  | none => return none
  | some outi =>
      let bin := wordBytes binsz outi
      let lead := (bin.takeWhile (· = 0)).length
      if lead < zerocount then
        throw .undefined
      else
        return some (bin.drop (lead - zerocount))

/-! ## Encoding -/

/-- The inner loop of `b58enc` over the positions not walked yet: `touched` of
them lie behind `high`.  It returns how far it came. -/
def carryLoop : List Nat → Nat → Nat → Except Exn (List Nat × Nat)
  | [], 0, 0 => .ok ([], 0)
  | [], _, _ => .error .undefined
  | digit :: rest, touched, carry =>
      if touched = 0 ∧ carry = 0 then
        .ok (digit :: rest, 0)
      else
        let t := carry + 256 * digit
        match carryLoop rest (touched - 1) (t / 58) with
        | .ok (rest', steps) => .ok (t % 58 :: rest', steps + 1)
        | .error failure => .error failure

def encodeLoop : List Nat → Nat → UString → Except Exn (List Nat)
  | buf, _, [] => .ok buf
  | buf, touched, byte :: rest =>
      match carryLoop buf touched byte.toNat with
      | .ok (buf', touched') => encodeLoop buf' touched' rest
      | .error failure => .error failure

/-- The characters that `b58enc` writes, without the terminator. -/
def b58text (data : UString) : Except Exn UString := do
  let zcount := (data.takeWhile (· = 0)).length
  let size := (data.length - zcount) * 138 / 100 + 1
  let buf ← encodeLoop (List.replicate size 0) 0 (data.drop zcount)
  let digits := buf.reverse.dropWhile (· = 0)
  return List.replicate zcount 49 ++ digits.map b58Char

/-- `b58enc` with room for `b58sz` characters. -/
def b58enc (b58sz : Nat) (data : UString) : Except Exn (Option UString) := do
  let text ← b58text data
  if b58sz ≤ text.length then
    return none
  else
    return some text

end BitMRC

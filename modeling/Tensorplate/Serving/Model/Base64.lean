import Tensorplate.Serving.Model.Router

/-!
# Base64 of the serving plane

`base64_encode` and `base64_decode`. A text is its bytes as characters; the
words of 24 bits are put together and taken apart with shifts and masks, as
the source does it.
-/

namespace Tensorplate

namespace Serialization

open Router (decodeError)

/-- `kBase64Alphabet`. -/
def kBase64Alphabet : List Char :=
  ['A', 'B', 'C', 'D', 'E', 'F', 'G', 'H', 'I', 'J', 'K', 'L', 'M', 'N', 'O', 'P', 'Q', 'R', 'S',
   'T', 'U', 'V', 'W', 'X', 'Y', 'Z', 'a', 'b', 'c', 'd', 'e', 'f', 'g', 'h', 'i', 'j', 'k', 'l',
   'm', 'n', 'o', 'p', 'q', 'r', 's', 't', 'u', 'v', 'w', 'x', 'y', 'z', '0', '1', '2', '3', '4',
   '5', '6', '7', '8', '9', '+', '/']

/-- `kBase64Alphabet[i]`. -/
def base64Char (i : ℕ) : Char := kBase64Alphabet.getD i 'A'

/-- `kBase64DecodeTable`: a character's place in the alphabet, -1 where it
has none. -/
def base64DecodeTable (c : Char) : ℤ :=
  match kBase64Alphabet.idxOf? c with
  | some i => i
  | none => -1

/-- `base64_encode`: groups of three bytes, then what remains. -/
def base64Encode : List UInt8 → List Char
  | a :: b :: c :: rest =>
    let v := (a.toNat <<< 16) ||| (b.toNat <<< 8) ||| c.toNat
    base64Char ((v >>> 18) &&& 0x3F) :: base64Char ((v >>> 12) &&& 0x3F) ::
      base64Char ((v >>> 6) &&& 0x3F) :: base64Char (v &&& 0x3F) :: base64Encode rest
  | [a, b] =>
    let v := (a.toNat <<< 16) ||| (b.toNat <<< 8)
    [base64Char ((v >>> 18) &&& 0x3F), base64Char ((v >>> 12) &&& 0x3F),
      base64Char ((v >>> 6) &&& 0x3F), '=']
  | [a] =>
    let v := a.toNat <<< 16
    [base64Char ((v >>> 18) &&& 0x3F), base64Char ((v >>> 12) &&& 0x3F), '=', '=']
  | [] => []

/-- The characters `base64_decode` leaves out. -/
def isBase64Space (c : Char) : Bool := c = '\r' || c = '\n' || c = ' ' || c = '\t'

/-- `compacted`. -/
def compacted (text : List Char) : List Char := text.filter fun c => !isBase64Space c

/-- A character of the second half of a group: -2 for a pad. -/
def base64Closing (c : Char) : ℤ := if c = '=' then -2 else base64DecodeTable c

/-- One round of the loop of `base64_decode`. -/
def base64DecodeGroup (c₀ c₁ c₂ c₃ : Char) : Except Error (List UInt8) :=
  let t₀ := base64DecodeTable c₀
  let t₁ := base64DecodeTable c₁
  let t₂ := base64Closing c₂
  let t₃ := base64Closing c₃
  if t₀ < 0 ∨ t₁ < 0 ∨ (t₂ < 0 ∧ t₂ ≠ -2) ∨ (t₃ < 0 ∧ t₃ ≠ -2) then
    .error (decodeError .configInvalid "base64: invalid character")
  else
    let v := (t₀.toNat <<< 18) ||| (t₁.toNat <<< 12)
    let v := if t₂ ≥ 0 then v ||| (t₂.toNat <<< 6) else v
    let v := if t₃ ≥ 0 then v ||| t₃.toNat else v
    .ok (UInt8.ofNat ((v >>> 16) &&& 0xFF) ::
      ((if t₂ ≥ 0 then [UInt8.ofNat ((v >>> 8) &&& 0xFF)] else []) ++
        if t₃ ≥ 0 then [UInt8.ofNat (v &&& 0xFF)] else []))

/-- The loop of `base64_decode`. -/
def base64DecodeGroups : List Char → Except Error (List UInt8)
  | c₀ :: c₁ :: c₂ :: c₃ :: rest => do
    let bytes ← base64DecodeGroup c₀ c₁ c₂ c₃
    let more ← base64DecodeGroups rest
    return bytes ++ more
  | _ => .ok []

/-- `base64_decode`. -/
def base64Decode (text : List Char) : Except Error (List UInt8) :=
  if (compacted text).length % 4 ≠ 0 then
    .error (decodeError .configInvalid "base64: bad length")
  else base64DecodeGroups (compacted text)

end Serialization

end Tensorplate

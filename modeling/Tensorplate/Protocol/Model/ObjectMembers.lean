import Tensorplate.Lib.Json
import Tensorplate.Lib.Utf8

/-!
# The members of an object, by their text

`object_members` hands out the members of a JSON object with the exact text
of each value. It walks the bytes of a text that was parsed before, and cuts
the text at byte offsets. The parser, a package of its own, is a parameter;
a slice the source would panic at is `none`.
-/

namespace Tensorplate

namespace Protocol

namespace BundleProfile

open Lib Lib.Utf8

/-- What the parser package does with a text. -/
structure SerdeJson where
  /-- Whether `from_str::<Value>` succeeds. -/
  isValue : List Char → Bool
  /-- `from_str::<IgnoredAny>`. -/
  ignoredAny : List Char → Except String Unit
  /-- `from_str::<String>`. -/
  string : List Char → Except String (List Char)

/-- `BundleProfileError`, as far as the members of an object go. -/
inductive BundleProfileError
  | malformed (field detail : String)
  | duplicateKey (field : String) (key : List Char)
  deriving DecidableEq, Repr

theorem lt_length_of_get {bytes : List UInt8} {i : ℕ} {b : UInt8} (h : bytes[i]? = some b) :
    i < bytes.length :=
  (List.getElem?_eq_some_iff.1 h).1

/-- The white space between tokens. -/
def isSpace (b : UInt8) : Bool :=
  b = byte ' ' || b = byte '\t' || b = byte '\n' || b = byte '\r'

/-- `skip_whitespace`. -/
def skipWhitespace (bytes : List UInt8) (i : ℕ) : ℕ :=
  match h : bytes[i]? with
  | some b => if isSpace b then skipWhitespace bytes (i + 1) else i
  | none => i
termination_by bytes.length - i
decreasing_by
  have := lt_length_of_get h
  omega

/-- The loop of `skip_string`. -/
def stringEnd (bytes : List UInt8) (i : ℕ) : ℕ :=
  match h : bytes[i]? with
  | some b =>
    if b = byte '\\' then stringEnd bytes (i + 2)
    else if b = byte '"' then i + 1
    else stringEnd bytes (i + 1)
  | none => i
termination_by bytes.length - i
decreasing_by
  · have := lt_length_of_get h
    omega
  · have := lt_length_of_get h
    omega

/-- `skip_string`: just past the string whose opening quote is at `i`. -/
def skipString (bytes : List UInt8) (i : ℕ) : ℕ := stringEnd bytes (i + 1)

theorem le_stringEnd (bytes : List UInt8) (i : ℕ) : i ≤ stringEnd bytes i := by
  fun_induction stringEnd bytes i with
  | case1 i h ih => omega
  | case2 i h hb => omega
  | case3 i b h hb hq ih => omega
  | case4 i h => exact Nat.le_refl _

theorem lt_skipString (bytes : List UInt8) (i : ℕ) : i < skipString bytes i :=
  le_stringEnd bytes (i + 1)

/-- The loop of `skip_value` in an array or an object. -/
def nestedEnd (bytes : List UInt8) (depth j : ℕ) : ℕ :=
  match h : bytes[j]? with
  | some b =>
    if b = byte '"' then nestedEnd bytes depth (skipString bytes j)
    else if b = byte '{' ∨ b = byte '[' then nestedEnd bytes (depth + 1) (j + 1)
    else if b = byte '}' ∨ b = byte ']' then
      if depth - 1 = 0 then j + 1 else nestedEnd bytes (depth - 1) (j + 1)
    else nestedEnd bytes depth (j + 1)
  | none => j
termination_by bytes.length - j
decreasing_by
  · have := lt_length_of_get h
    have := lt_skipString bytes j
    omega
  · have := lt_length_of_get h
    omega
  · have := lt_length_of_get h
    omega
  · have := lt_length_of_get h
    omega

/-- The bytes that end a bare token. -/
def endsToken (b : UInt8) : Bool := b = byte ',' || b = byte '}' || b = byte ']' || isSpace b

/-- The loop of `skip_value` in a bare token. -/
def tokenEnd (bytes : List UInt8) (j : ℕ) : ℕ :=
  match h : bytes[j]? with
  | some b => if endsToken b then j else tokenEnd bytes (j + 1)
  | none => j
termination_by bytes.length - j
decreasing_by
  have := lt_length_of_get h
  omega

/-- `skip_value`: just past the value that starts at `i`. -/
def skipValue (bytes : List UInt8) (i : ℕ) : ℕ :=
  if bytes[i]? = some (byte '"') then skipString bytes i
  else if bytes[i]? = some (byte '{') ∨ bytes[i]? = some (byte '[') then nestedEnd bytes 0 i
  else tokenEnd bytes i

theorem le_skipWhitespace (bytes : List UInt8) (i : ℕ) : i ≤ skipWhitespace bytes i := by
  fun_induction skipWhitespace bytes i with
  | case1 i b h hb ih => omega
  | case2 i b h hb => exact Nat.le_refl _
  | case3 i h => exact Nat.le_refl _

theorem le_nestedEnd (bytes : List UInt8) (depth j : ℕ) : j ≤ nestedEnd bytes depth j := by
  fun_induction nestedEnd bytes depth j with
  | case1 depth j h ih =>
    have := lt_skipString bytes j
    omega
  | case2 depth j b h hq ho ih => omega
  | case3 depth j b h hq ho hc hd => omega
  | case4 depth j b h hq ho hc hd ih => omega
  | case5 depth j b h hq ho hc ih => omega
  | case6 depth j h => exact Nat.le_refl _

theorem le_tokenEnd (bytes : List UInt8) (j : ℕ) : j ≤ tokenEnd bytes j := by
  fun_induction tokenEnd bytes j with
  | case1 j b h hb => exact Nat.le_refl _
  | case2 j b h hb ih => omega
  | case3 j h => exact Nat.le_refl _

theorem le_skipValue (bytes : List UInt8) (i : ℕ) : i ≤ skipValue bytes i := by
  unfold skipValue
  split_ifs
  · exact (lt_skipString bytes i).le
  · exact le_nestedEnd bytes 0 i
  · exact le_tokenEnd bytes i

/-- Where the next member may start, behind a value. -/
def nextMember (bytes : List UInt8) (i : ℕ) : ℕ :=
  if bytes[i]? = some (byte ',') then skipWhitespace bytes (i + 1) else i

theorem le_nextMember (bytes : List UInt8) (i : ℕ) : i ≤ nextMember bytes i := by
  unfold nextMember
  split_ifs
  · have := le_skipWhitespace bytes (i + 1)
    omega
  · exact Nat.le_refl _

/-- Where the value of a member starts, behind its key. -/
def valueStart (bytes : List UInt8) (keyEnd : ℕ) : ℕ :=
  skipWhitespace bytes (skipWhitespace bytes keyEnd + 1)

theorem lt_valueStart (bytes : List UInt8) (keyEnd : ℕ) : keyEnd < valueStart bytes keyEnd := by
  have h₁ := le_skipWhitespace bytes keyEnd
  have h₂ := le_skipWhitespace bytes (skipWhitespace bytes keyEnd + 1)
  unfold valueStart
  omega

/-- The loop of `object_members`. -/
def membersFrom (P : SerdeJson) (text : List Char) (field : String) (i : ℕ)
    (members : List (List Char × List Char)) :
    Option (Except BundleProfileError (List (List Char × List Char))) :=
  let bytes := encode text
  if h : bytes[i]? = some (byte '"') then
    let keyEnd := skipString bytes i
    match slice text i keyEnd with
    | none => none
    | some raw =>
      match P.string raw with
      | .error e => some (.error (.malformed field e))
      | .ok key =>
        let start := valueStart bytes keyEnd
        let stop := skipValue bytes start
        if members.any fun m => m.1 = key then some (.error (.duplicateKey field key))
        else
          match slice text start stop with
          | none => none
          | some value =>
            membersFrom P text field (nextMember bytes (skipWhitespace bytes stop))
              (members ++ [(key, value)])
  else some (.ok members)
termination_by (encode text).length - i
decreasing_by
  have h₁ : i < (encode text).length := lt_length_of_get h
  have h₂ := lt_skipString (encode text) i
  have h₃ := lt_valueStart (encode text) (skipString (encode text) i)
  have h₄ := le_skipValue (encode text) (valueStart (encode text) (skipString (encode text) i))
  have h₅ := le_skipWhitespace (encode text)
    (skipValue (encode text) (valueStart (encode text) (skipString (encode text) i)))
  have h₆ := le_nextMember (encode text) (skipWhitespace (encode text)
    (skipValue (encode text) (valueStart (encode text) (skipString (encode text) i))))
  omega

/-- **`object_members`**; `none` where a slice would panic. -/
def objectMembers (P : SerdeJson) (text : List Char) (field : String) :
    Option (Except BundleProfileError (List (List Char × List Char))) :=
  match P.ignoredAny text with
  | .error e => some (.error (.malformed field e))
  | .ok () =>
    let bytes := encode text
    let i := skipWhitespace bytes 0
    if bytes[i]? = some (byte '{') then
      membersFrom P text field (skipWhitespace bytes (i + 1)) []
    else some (.error (.malformed field "expected a JSON object"))

end BundleProfile

end Protocol

end Tensorplate

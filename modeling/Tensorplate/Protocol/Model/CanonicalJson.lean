import Mathlib.Data.List.Lex
import Mathlib.Data.List.Sort
import Tensorplate.Lib.Decimal
import Tensorplate.Lib.Json

/-!
# Canonical JSON

`canonicalize` reads a JSON text into a `Node` and writes the node back in
the one form digests are computed over. The parser, a package of its own,
is a parameter: what it makes of a text is a `Value`, which keeps repeated
keys and number lexemes. Bytes are written as the characters they encode.
-/

namespace Tensorplate

namespace Protocol

open Lib Lib.Json

namespace CanonicalJson

/-- `MAX_CANONICAL_DEPTH`. -/
def maxCanonicalDepth : ℕ := 64

/-- `MAX_SAFE_BYTES`, as the domain of integers. -/
def maxInteger : ℕ := 2 ^ 53 - 1

/-- `CanonicalJsonError`. -/
inductive CanonicalJsonError
  | malformed (message : String)
  | duplicateKey (key : List Char)
  | depth
  | null
  | number (value problem : String)
  deriving DecidableEq, Repr

/-- A double, as far as the writer reads it. -/
structure Double where
  /-- Its bits are those of `-0.0`. -/
  negZero : Bool
  /-- Its magnitude is above 2^53 - 1. -/
  large : Bool
  display : String
  deriving DecidableEq, Repr

/-- What the parser package does with a text. -/
structure Parser where
  parse : List Char → Option Value
  /-- The double it makes of a lexeme, unless that is out of range. -/
  double : List Char → Option Double
  /-- The message of a grammar error. -/
  message : List Char → String
  /-- Where in the text a number is out of range. -/
  place : List Char → String

/-- `Node`. -/
inductive Node
  | null
  | bool (b : Bool)
  | unsigned (v : ℕ)
  | signed (v : ℤ)
  | float (v : Double)
  | string (s : List Char)
  | array (items : List Node)
  | object (members : List (List Char × Node))

/-! ## Reading -/

/-- The characters of a string, unless it holds a surrogate. -/
def scalars : List ℕ → Option (List Char)
  | [] => some []
  | n :: ns => if h : n.isValidChar then (scalars ns).map (Char.ofNatAux n h :: ·) else none

/-- A lexeme with a fraction or an exponent. -/
def isFloating (l : List Char) : Bool := l.any fun c => c = '.' || c = 'e' || c = 'E'

/-- The visit of a number: a `u64`, an `i64`, or else a double. -/
def visitNumber (P : Parser) (text l : List Char) : Except CanonicalJsonError Node :=
  let asDouble : Except CanonicalJsonError Node := match P.double l with
    | some v => .ok (.float v)
    | none => .error (.number (P.place text) "is outside the range a double holds")
  if isFloating l then asDouble
  else match l with
    | '-' :: ds =>
      -- `-0`, and what an `i64` does not hold, go to the double
      if decimal ds = 0 ∨ 2 ^ 63 < decimal ds then asDouble
      else .ok (.signed (-(decimal ds : ℤ)))
    | ds => if decimal ds < 2 ^ 64 then .ok (.unsigned (decimal ds)) else asDouble

/-- `NodeSeed::enter`, under a limit. -/
def enter (limit depth : ℕ) : Except CanonicalJsonError ℕ :=
  if limit ≤ depth then .error .depth else .ok (depth + 1)

def visitString (P : Parser) (text : List Char) (s : List ℕ) :
    Except CanonicalJsonError (List Char) :=
  match scalars s with
  | some cs => .ok cs
  | none => .error (.malformed (P.message text))

mutual

/-- The visit of a value, `depth` containers deep. -/
def visit (P : Parser) (text : List Char) (limit depth : ℕ) :
    Value → Except CanonicalJsonError Node
  | .null => .ok .null
  | .bool b => .ok (.bool b)
  | .num l => visitNumber P text l
  | .str s => (visitString P text s).map .string
  | .arr vs =>
    (enter limit depth).bind fun inner => (visitSeq P text limit inner vs).map .array
  | .obj ms =>
    (enter limit depth).bind fun inner => (visitMap P text limit inner ms).map .object

/-- `visit_seq`. -/
def visitSeq (P : Parser) (text : List Char) (limit inner : ℕ) :
    List Value → Except CanonicalJsonError (List Node)
  | [] => .ok []
  | v :: vs =>
    (visit P text limit inner v).bind fun item =>
      (visitSeq P text limit inner vs).map (item :: ·)

/-- `visit_map`. -/
def visitMap (P : Parser) (text : List Char) (limit inner : ℕ) :
    List (List ℕ × Value) → Except CanonicalJsonError (List (List Char × Node))
  | [] => .ok []
  | m :: ms =>
    (visitMember P text limit inner m).bind fun member =>
      (visitMap P text limit inner ms).map (member :: ·)

/-- A key and its value. -/
def visitMember (P : Parser) (text : List Char) (limit inner : ℕ) :
    List ℕ × Value → Except CanonicalJsonError (List Char × Node)
  | (k, v) =>
    (visitString P text k).bind fun key => (visit P text limit inner v).map (key, ·)

end

/-! ## Writing -/

def hexChar (n : ℕ) : Char := Nat.digitChar n

/-- `{:04x}`. -/
def hex4 (n : ℕ) : List Char :=
  [hexChar (n / 4096 % 16), hexChar (n / 256 % 16), hexChar (n / 16 % 16), hexChar (n % 16)]

def escape (c : Char) : List Char :=
  if c = '"' then ['\\', '"']
  else if c = '\\' then ['\\', '\\']
  else if c = '\x08' then ['\\', 'b']
  else if c = '\t' then ['\\', 't']
  else if c = '\n' then ['\\', 'n']
  else if c = '\x0c' then ['\\', 'f']
  else if c = '\r' then ['\\', 'r']
  else if c.toNat < 0x20 then '\\' :: 'u' :: hex4 c.toNat
  else [c]

def writeString (s : List Char) : List Char := '"' :: (s.flatMap escape ++ ['"'])

/-- The bytes of a text. -/
def utf8 (cs : List Char) : List UInt8 := cs.flatMap String.utf8EncodeChar

/-- `str` orders by UTF-8 bytes. -/
def keyLe (a b : List Char) : Bool :=
  decide ((utf8 a).map UInt8.toNat ≤ (utf8 b).map UInt8.toNat)

/-- The members in the order of their keys; the sort is stable. -/
def sortByKey {α : Type} (ms : List (List Char × α)) : List (List Char × α) :=
  ms.mergeSort fun a b => keyLe a.1 b.1

/-- The first key that equals its neighbour. -/
def firstRepeat : List (List Char) → Option (List Char)
  | [] => none
  | [_] => none
  | a :: b :: rest => if a = b then some a else firstRepeat (b :: rest)

def outOfRange (value : String) : CanonicalJsonError :=
  .number value "is outside [-(2^53-1), 2^53-1]"

def floatProblem (v : Double) : String :=
  if v.negZero then "is -0, which is written 0"
  else if v.large then "is outside [-(2^53-1), 2^53-1]"
  else "is written with a fraction or an exponent"

/-- The texts of an array's items behind its bracket. -/
def joinItems : List (Except CanonicalJsonError (List Char)) →
    Except CanonicalJsonError (List Char)
  | [] => .ok [']']
  | [item] => item.map (· ++ [']'])
  | item :: items =>
    item.bind fun t => (joinItems items).map fun ts => t ++ ',' :: ts

/-- One member: its key, a colon and its value. -/
def writeMember (m : List Char × Except CanonicalJsonError (List Char)) :
    Except CanonicalJsonError (List Char) :=
  m.2.map fun t => writeString m.1 ++ ':' :: t

/-- The texts of an object's members behind its bracket. -/
def joinMembers : List (List Char × Except CanonicalJsonError (List Char)) →
    Except CanonicalJsonError (List Char)
  | [] => .ok ['}']
  | [m] => (writeMember m).map (· ++ ['}'])
  | m :: ms =>
    (writeMember m).bind fun t => (joinMembers ms).map fun ts => t ++ ',' :: ts

/-- An object from the texts of its members: sorted, without repetition. -/
def writeObject (ms : List (List Char × Except CanonicalJsonError (List Char))) :
    Except CanonicalJsonError (List Char) :=
  let sorted := sortByKey ms
  match firstRepeat (sorted.map Prod.fst) with
  | some key => .error (.duplicateKey key)
  | none => (joinMembers sorted).map ('{' :: ·)

mutual

/-- `write_node`. -/
def writeNode : Node → Except CanonicalJsonError (List Char)
  | .null => .error .null
  | .bool true => .ok ['t', 'r', 'u', 'e']
  | .bool false => .ok ['f', 'a', 'l', 's', 'e']
  | .unsigned v =>
    if maxInteger < v then .error (outOfRange (toString v)) else .ok (Nat.toDigits 10 v)
  | .signed v =>
    if maxInteger < v.natAbs then .error (outOfRange (toString v))
    else .ok (if v < 0 then '-' :: Nat.toDigits 10 v.natAbs else Nat.toDigits 10 v.natAbs)
  | .float v => .error (.number v.display (floatProblem v))
  | .string s => .ok (writeString s)
  | .array items => (joinItems (writeItems items)).map ('[' :: ·)
  | .object members => writeObject (writeValues members)

/-- The texts of the items. -/
def writeItems : List Node → List (Except CanonicalJsonError (List Char))
  | [] => []
  | n :: ns => writeNode n :: writeItems ns

/-- The keys with the texts of their values. -/
def writeValues : List (List Char × Node) →
    List (List Char × Except CanonicalJsonError (List Char))
  | [] => []
  | m :: ms => writeKeyed m :: writeValues ms

def writeKeyed : List Char × Node → List Char × Except CanonicalJsonError (List Char)
  | (k, n) => (k, writeNode n)

end

/-- `canonicalize`: the canonical characters of a text. -/
def canonicalText (P : Parser) (text : List Char) : Except CanonicalJsonError (List Char) :=
  match P.parse text with
  | none => .error (.malformed (P.message text))
  | some v => (visit P text maxCanonicalDepth 0 v).bind writeNode

/-- `canonicalize`. -/
def canonicalize (P : Parser) (text : List Char) : Except CanonicalJsonError (List UInt8) :=
  (canonicalText P text).map utf8

/-! ## In-memory values -/

/-- `serde_json::Value`: a number is a `u64`, an `i64` or a double, and an
object is a map in the order of its keys. -/
inductive Serde
  | null
  | bool (b : Bool)
  | posInt (v : ℕ)
  | negInt (v : ℤ)
  | float (v : Double)
  | string (s : List Char)
  | array (items : List Serde)
  | object (members : List (List Char × Serde))

/-- Insertion into a map; a key that is there gets the new value. -/
def insertKey {α : Type} (k : List Char) (v : α) :
    List (List Char × α) → List (List Char × α)
  | [] => [(k, v)]
  | (k', v') :: rest =>
    if k = k' then (k, v) :: rest
    else if keyLe k k' then (k, v) :: (k', v') :: rest
    else (k', v') :: insertKey k v rest

/-- The map of a list of members, the first inserted first. -/
def toMap {α : Type} (ms : List (List Char × α)) : List (List Char × α) :=
  ms.foldl (fun acc m => insertKey m.1 m.2 acc) []

mutual

/-- The in-memory value of what was read. -/
def Node.toSerde : Node → Serde
  | .null => .null
  | .bool b => .bool b
  | .unsigned v => .posInt v
  | .signed v => .negInt v
  | .float v => .float v
  | .string s => .string s
  | .array items => .array (toSerdes items)
  | .object members => .object (toMap (toSerdeMembers members))

def toSerdes : List Node → List Serde
  | [] => []
  | n :: ns => n.toSerde :: toSerdes ns

def toSerdeMembers : List (List Char × Node) → List (List Char × Serde)
  | [] => []
  | m :: ms => toSerdeMember m :: toSerdeMembers ms

def toSerdeMember : List Char × Node → List Char × Serde
  | (k, n) => (k, n.toSerde)

end

/-- The parser's own limit on nesting. -/
def parserDepth : ℕ := 127

/-- The in-memory value the parser makes of a text. -/
def parsedValue (P : Parser) (text : List Char) : Except CanonicalJsonError Serde :=
  match P.parse text with
  | none => .error (.malformed (P.message text))
  | some v => (visit P text parserDepth 0 v).map Node.toSerde

mutual

/-- The visit of an in-memory value, `depth` containers deep. -/
def visitSerde (depth : ℕ) : Serde → Except CanonicalJsonError Node
  | .null => .ok .null
  | .bool b => .ok (.bool b)
  | .posInt v => .ok (.unsigned v)
  | .negInt v => .ok (.signed v)
  | .float v => .ok (.float v)
  | .string s => .ok (.string s)
  | .array vs =>
    (enter maxCanonicalDepth depth).bind fun inner => (visitSerdes inner vs).map .array
  | .object ms =>
    (enter maxCanonicalDepth depth).bind fun inner => (visitSerdeMembers inner ms).map .object

def visitSerdes (inner : ℕ) : List Serde → Except CanonicalJsonError (List Node)
  | [] => .ok []
  | v :: vs => (visitSerde inner v).bind fun item => (visitSerdes inner vs).map (item :: ·)

def visitSerdeMembers (inner : ℕ) :
    List (List Char × Serde) → Except CanonicalJsonError (List (List Char × Node))
  | [] => .ok []
  | m :: ms =>
    (visitSerdeMember inner m).bind fun member => (visitSerdeMembers inner ms).map (member :: ·)

def visitSerdeMember (inner : ℕ) :
    List Char × Serde → Except CanonicalJsonError (List Char × Node)
  | (k, v) => (visitSerde inner v).map (k, ·)

end

/-- `canonicalize_value`. -/
def canonicalizeValue (v : Serde) : Except CanonicalJsonError (List UInt8) :=
  ((visitSerde 0 v).bind writeNode).map utf8

end CanonicalJson

end Protocol

end Tensorplate

import Mathlib.Data.List.Basic
import Tensorplate.Core.Error

/-!
# HTTP messages

The request and the response values of the loopback server. A text is the
list of its bytes, each written as a character.
-/

namespace Tensorplate

namespace Http

/-- `Header`. -/
structure Header where
  name : List Char
  value : List Char
  deriving DecidableEq, Repr

/-- `Request`, but for the peer's address. -/
structure Request where
  method : List Char := []
  path : List Char := []
  query : List Char := []
  headers : List Header := []
  body : List Char := []
  correlationId : List Char := []
  deriving DecidableEq, Repr

/-- `Request::header`. -/
def Request.header (r : Request) (name : List Char) : Option (List Char) :=
  (r.headers.find? fun h => h.name = name).map Header.value

/-- The lower case of an ASCII letter. -/
def lowerChar (c : Char) : Char :=
  if 'A' ≤ c ∧ c ≤ 'Z' then Char.ofNat (c.toNat + ('a'.toNat - 'A'.toNat)) else c

/-- `lower_ascii`. -/
def lowerAscii (text : List Char) : List Char := text.map lowerChar

/-- `Response`. -/
structure Response where
  status : ℕ := 200
  headers : List Header := []
  body : List Char := []
  deriving DecidableEq, Repr

namespace Response

/-- `set_header`: the value of the first header of the name, or a header
more. -/
def setHeader (r : Response) (name value : List Char) : Response :=
  { r with headers := set (lowerAscii name) value r.headers }
where
  /-- The loop over the headers. -/
  set (name value : List Char) : List Header → List Header
    | [] => [⟨name, value⟩]
    | h :: rest => if h.name = name then ⟨h.name, value⟩ :: rest else h :: set name value rest

/-- `Response::json`. -/
def json (status : ℕ) (body : List Char) : Response :=
  { ({ status := status } : Response).setHeader "content-type".toList "application/json".toList with
    body := body }

/-- `Response::ok_json`. -/
def okJson (body : List Char) : Response := json 200 body

/-- `Response::plain`. -/
def plain (status : ℕ) (body : List Char) : Response :=
  { ({ status := status } : Response).setHeader "content-type".toList
      "text/plain; charset=utf-8".toList with
    body := body }

end Response

/-- A header of the name is there. -/
def Response.has (r : Response) (name : String) : Bool := r.headers.any fun h => h.name = name.toList

end Http

end Tensorplate

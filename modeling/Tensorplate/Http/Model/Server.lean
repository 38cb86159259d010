import Tensorplate.Http.Model.Message
import Tensorplate.Lib.Decimal
import Tensorplate.Lib.Search

/-!
# The loopback HTTP server

One connection of `HttpServer`, from the bytes the client sends to the
request it dispatches or the refusal it answers. A connection is what is
left to read with the sizes the next reads are given; a read returns no more
than its buffer holds, and nothing only at the end of the stream. A timeout
answers what the end of the stream does.
-/

namespace Tensorplate

namespace Http

open Lib

/-- `kReadChunk`. -/
def kReadChunk : ℕ := 16384

/-- `HttpServerConfig`, as far as a connection reads it. -/
structure HttpServerConfig where
  maxBodyBytes : ℕ := 16 * 1024 * 1024
  maxHeaderBytes : ℕ := 32 * 1024
  deriving DecidableEq, Repr

/-- The end of a line. -/
def crlf : List Char := ['\r', '\n']

/-- The end of the header block. -/
def headerEnd : List Char := ['\r', '\n', '\r', '\n']

/-- A connection: what is left to read, and the sizes of the next reads. -/
structure Connection where
  unread : List Char
  sizes : List ℕ
  deriving DecidableEq, Repr

/-- `recv` into a buffer of `capacity` bytes: at least one byte, if there is
one. -/
def Connection.recv (c : Connection) (capacity : ℕ) : List Char × Connection :=
  let n := min capacity (match c.sizes with
    | [] => capacity
    | k :: _ => max k 1)
  (c.unread.take n, ⟨c.unread.drop n, c.sizes.tail⟩)

/-- What `read_until_headers` returns. -/
inductive HeaderRead
  | found (buffer : List Char) (c : Connection)
  | tooLarge
  | ended
  deriving DecidableEq, Repr

/-- `read_until_headers`. Every read but the last takes a byte, so that the
length of the stream bounds the loop. -/
def readUntilHeaders (maxHeaderBytes : ℕ) : ℕ → List Char → Connection → HeaderRead
  | fuel, buffer, c =>
    match cutAt headerEnd buffer with
    | some (head, _) =>
      if head.length + 4 > maxHeaderBytes then .tooLarge else .found buffer c
    | none =>
      if buffer.length > maxHeaderBytes then .tooLarge
      else match fuel with
        | 0 => .ended
        | fuel + 1 =>
          let (chunk, c) := c.recv kReadChunk
          if chunk = [] then .ended else readUntilHeaders maxHeaderBytes fuel (buffer ++ chunk) c

/-- `read_remaining_body`: the body, or nothing at the end of the stream. -/
def readRemainingBody (needTotal : ℕ) : ℕ → List Char → Connection → Option (List Char)
  | fuel, buffer, c =>
    if buffer.length < needTotal then
      match fuel with
      | 0 => none
      | fuel + 1 =>
        let (chunk, c) := c.recv (min kReadChunk (needTotal - buffer.length))
        if chunk = [] then none else readRemainingBody needTotal fuel (buffer ++ chunk) c
    else some buffer

/-- A blank of a header value. -/
def isBlank (c : Char) : Bool := c = ' ' || c = '\t'

/-- One header line; a line without a colon is none. -/
def parseHeaderLine (line : List Char) : Option Header :=
  match cutAt [':'] line with
  | none => none
  | some (name, value) =>
    some ⟨lowerAscii name, ((value.dropWhile isBlank).reverse.dropWhile isBlank).reverse⟩

/-- The loop over the header lines, at what stands behind `pos`. -/
def parseHeaders : ℕ → List Char → List Header
  | 0, _ => []
  | fuel + 1, rest =>
    if rest = [] then []
    else match cutAt crlf rest with
      | some ([], _) => []
      | some (line, after) => (parseHeaderLine line).toList ++ parseHeaders fuel after
      | none => (parseHeaderLine rest).toList

/-- The start line: method, path and query. -/
def parseStartLine (line : List Char) : Option (List Char × List Char × List Char) :=
  match cutAt [' '] line with
  | none => none
  | some (method, rest) =>
    match cutAt [' '] rest with
    | none => none
    | some (target, _) =>
      match cutAt ['?'] target with
      | some (path, query) => some (method, path, query)
      | none => some (method, target, [])

/-- `parse_request_head`: an empty request, if there is no start line. -/
def parseRequestHead (head : List Char) : Request :=
  match cutAt crlf head with
  | none => {}
  | some (startLine, rest) =>
    match parseStartLine startLine with
    | none => {}
    | some (method, path, query) =>
      { method := method, path := path, query := query
        headers := parseHeaders rest.length rest }

/-- `isspace`, in the locale a program starts with. -/
def isSpace (c : Char) : Bool :=
  c = ' ' || c = '\t' || c = '\n' || c = '\r' || c = '\x0b' || c = '\x0c'

/-- The sign `strtoull` reads: whether it is a minus, and what follows. -/
def readSign : List Char → Bool × List Char
  | '+' :: rest => (false, rest)
  | '-' :: rest => (true, rest)
  | rest => (false, rest)

/-- `std::stoull`: blanks, a sign, the digits that follow, and whatever
stands behind them; nothing where it throws. -/
def stoull (text : List Char) : Option ℕ :=
  let (negative, rest) := readSign (text.dropWhile isSpace)
  let digits := rest.takeWhile Char.isDigit
  if digits = [] then none
  else if decimal digits ≥ 2 ^ 64 then none
  else some (if negative then (2 ^ 64 - decimal digits) % 2 ^ 64 else decimal digits)

/-- What a connection comes to. -/
inductive Outcome
  | answered (response : Response)
  | dispatched (request : Request)
  | closed
  deriving DecidableEq, Repr

/-- A refusal. -/
def refusal (status : ℕ) (text : String) : Outcome := .answered (Response.plain status text.toList)

/-- The content length of a request, nothing if it is bad. -/
def contentLengthOf (req : Request) : Option ℕ :=
  match req.header "content-length".toList with
  | some value => stoull value
  | none => some 0

/-- The body of a request in `handle_connection`, `buffered` what was read
behind its header block. -/
def handleBody (config : HttpServerConfig) (req : Request) (buffered : List Char)
    (c : Connection) : Outcome :=
  match contentLengthOf req with
  | none => refusal 400 "bad content-length"
  | some contentLength =>
    if contentLength > config.maxBodyBytes then refusal 413 "payload too large"
    else if contentLength > 0 then
      let body := if buffered.length < contentLength then
          readRemainingBody contentLength c.unread.length buffered c
        else some buffered
      match body with
      | none => refusal 408 "request timeout"
      | some body =>
        if body.length > config.maxBodyBytes then refusal 413 "payload too large"
        else .dispatched { req with body := body }
    else .dispatched req

/-- `handle_connection` behind the header block, `head` what stands before
its end. -/
def handleRequest (config : HttpServerConfig) (head buffered : List Char) (c : Connection) :
    Outcome :=
  let req := parseRequestHead head
  if req.method = [] ∨ req.path = [] then refusal 400 "bad request"
  else handleBody config
    { req with correlationId := (req.header "x-correlation-id".toList).getD [] } buffered c

/-- `handle_connection`, up to the dispatch. -/
def handleConnection (config : HttpServerConfig) (c : Connection) : Outcome :=
  match readUntilHeaders config.maxHeaderBytes (c.unread.length + 1) [] c with
  | .tooLarge => refusal 431 "request header fields too large"
  | .ended => refusal 408 "request timeout"
  | .found buffer c =>
    match cutAt headerEnd buffer with
    | none => .closed
    | some (head, buffered) => handleRequest config head buffered c

end Http

end Tensorplate

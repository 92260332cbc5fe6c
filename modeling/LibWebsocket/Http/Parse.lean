import LibWebsocket.Lib.ByteOrder
import LibWebsocket.Lib.Search

/-! The request parser of `HttpContext`. It reads the request line and the header lines one by
one and keeps its state between calls. -/
namespace LibWebsocket.Http
open Lib

/-- The bytes of a text without characters beyond one byte. -/
def ascii (s : String) : Bytes := s.toList.map fun c => UInt8.ofNat c.toNat

def crlf : Bytes := ascii "\r\n"

def crlfcrlf : Bytes := ascii "\r\n\r\n"

theorem crlf_ne_nil : crlf ≠ [] := by decide

theorem crlfcrlf_ne_nil : crlfcrlf ≠ [] := by decide

namespace Buffer

def findCRLFCRLF (buf : Bytes) : Option ℕ := search crlfcrlf buf

def findCRLF (buf : Bytes) : Option ℕ := search crlf buf

end Buffer

/-- Why a call does not return: the assertion of `setMethod` fails, or the loop goes on for ever. -/
inductive Failure
  | assertion
  | diverged
deriving DecidableEq, Repr

inductive Method
  | kInvalid | kGet | kPost | kHead | kPut | kDelete
deriving DecidableEq, Repr

inductive Version
  | kUnknown | kHttp10 | kHttp11
deriving DecidableEq, Repr

/-- `HttpRequest`. The headers are a map; the last value of a field stands in front. -/
structure HttpRequest where
  method : Method
  version : Version
  path : Bytes
  query : Bytes
  headers : List (Bytes × Bytes)
deriving DecidableEq, Repr

namespace HttpRequest

def create : HttpRequest := ⟨.kInvalid, .kUnknown, [], [], []⟩

def methodOf (m : Bytes) : Method :=
  if m = ascii "GET" then .kGet
  else if m = ascii "POST" then .kPost
  else if m = ascii "HEAD" then .kHead
  else if m = ascii "PUT" then .kPut
  else if m = ascii "DELETE" then .kDelete
  else .kInvalid

def setMethod (r : HttpRequest) (m : Bytes) : Except Failure (Bool × HttpRequest) :=
  if r.method = .kInvalid then
    .ok (methodOf m ≠ .kInvalid, { r with method := methodOf m })
  else .error .assertion

/-- `isspace` in the C locale. -/
def isspace (c : UInt8) : Bool := c = 32 ∨ 9 ≤ c ∧ c ≤ 13

def trim (value : Bytes) : Bytes :=
  ((value.dropWhile isspace).reverse.dropWhile isspace).reverse

def addHeader (r : HttpRequest) (field value : Bytes) : HttpRequest :=
  { r with headers := (field, trim value) :: r.headers.filter (·.1 ≠ field) }

def getHeader (r : HttpRequest) (field : Bytes) : Bytes := (r.headers.lookup field).getD []

end HttpRequest

inductive ParseState
  | kExpectRequestLine | kExpectHeaders | kExpectBody | kGotAll
deriving DecidableEq, Repr

structure HttpContext where
  state : ParseState
  request : HttpRequest
deriving DecidableEq, Repr

namespace HttpContext

def create : HttpContext := ⟨.kExpectRequestLine, .create⟩

def gotAll (c : HttpContext) : Bool := c.state = .kGotAll

def reset (_ : HttpContext) : HttpContext := create

def versionOf (v : Bytes) : Option Version :=
  if v.length = 8 ∧ v.take 7 = ascii "HTTP/1." then
    if v.getLast? = some 49 then some .kHttp11
    else if v.getLast? = some 48 then some .kHttp10
    else none
  else none

/-- The path ends at the first question mark, which belongs to the query. -/
def setTarget (r : HttpRequest) (target : Bytes) : HttpRequest :=
  match cut 63 target with
  | some (path, query) => { r with path := path, query := 63 :: query }
  | none => { r with path := target }

def processRequestLine (r : HttpRequest) (line : Bytes) : Except Failure (Bool × HttpRequest) :=
  match cut 32 line with
  | none => .ok (false, r)
  | some (m, rest) => do
    let (valid, r) ← r.setMethod m
    if valid then
      match cut 32 rest with
      | none => pure (false, r)
      | some (target, v) =>
        let r := setTarget r target
        match versionOf v with
        | some version => pure (true, { r with version := version })
        | none => pure (false, r)
    else pure (false, r)

/-- What one round of the loop leaves: whether to go on, the result and the state. -/
structure Round where
  hasMore : Bool
  ok : Bool
  context : HttpContext
  buf : Bytes
deriving DecidableEq, Repr

def parseRound (c : HttpContext) (buf : Bytes) : Except Failure Round :=
  match c.state with
  | .kExpectRequestLine =>
    match Buffer.findCRLF buf with
    | some n => do
      let (ok, r) ← processRequestLine c.request (buf.take n)
      if ok then pure ⟨true, true, ⟨.kExpectHeaders, r⟩, buf.drop (n + 2)⟩
      else pure ⟨false, false, { c with request := r }, buf⟩
    | none => .ok ⟨false, true, c, buf⟩
  | .kExpectHeaders =>
    match Buffer.findCRLF buf with
    | some n =>
      match cut 58 (buf.take n) with
      | some (field, value) =>
        .ok ⟨true, true, { c with request := c.request.addHeader field value }, buf.drop (n + 2)⟩
      | none => .ok ⟨false, true, { c with state := .kGotAll }, buf.drop (n + 2)⟩
    | none => .ok ⟨false, true, c, buf⟩
  -- no branch of the loop stops it in these states
  | .kExpectBody | .kGotAll => .ok ⟨true, true, c, buf⟩

def parseLoop : ℕ → HttpContext → Bytes → Except Failure (Bool × HttpContext × Bytes)
  | 0, _, _ => .error .diverged
  | fuel + 1, c, buf => do
    let r ← parseRound c buf
    if r.hasMore then parseLoop fuel r.context r.buf else pure (r.ok, r.context, r.buf)

/-- Every round that goes on takes a line from the buffer. -/
def loopFuel (buf : Bytes) : ℕ := buf.length + 1

def parseRequest (c : HttpContext) (buf : Bytes) : Except Failure (Bool × HttpContext × Bytes) :=
  parseLoop (loopFuel buf) c buf

end HttpContext

end LibWebsocket.Http

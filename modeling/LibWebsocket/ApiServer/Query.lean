import LibWebsocket.Http.ClientIp

/-! The query string of a request, and the numbers the server reads from its values. -/
namespace LibWebsocket.ApiServer
open Lib Http

/-- `HttpParams`. The last value of a key stands in front. -/
abbrev HttpParams := List (Bytes × Bytes)

def HttpParams.set (params : HttpParams) (key val : Bytes) : HttpParams :=
  (key, val) :: params.filter (·.1 ≠ key)

def HttpParams.find (params : HttpParams) (key : String) : Option Bytes :=
  params.lookup (ascii key)

/-- The loop of `parseQuery`; a round that goes on skips a `&`. -/
def parseQueryLoop : ℕ → Bytes → HttpParams → HttpParams
  | 0, _, params => params
  | fuel + 1, subStr, params =>
    match cut 61 subStr with
    | none => params
    | some (key, val) =>
      match cut 38 subStr with
      | none => params.set key val
      | some (token, rest) =>
        if key.length < token.length then
          parseQueryLoop fuel rest (params.set key (token.drop (key.length + 1)))
        else params

def parseQuery (queryStr : Bytes) : HttpParams :=
  match cut 63 queryStr with
  | some (_, subStr) => parseQueryLoop (subStr.length + 1) subStr []
  | none => parseQueryLoop (queryStr.length + 1) queryStr []

/-- The number that digits write. -/
def digits (s : Bytes) : ℕ := s.foldl (fun n c => 10 * n + (c.toNat - 48)) 0

/-- `atol` and `atoll`: white space, a sign and digits, the result kept within 64 bits. -/
def atol (s : Bytes) : ℤ :=
  match s.dropWhile HttpRequest.isspace with
  | 45 :: s => max (-(digits (s.takeWhile isdigit) : ℤ)) (-2 ^ 63)
  | 43 :: s => min (digits (s.takeWhile isdigit) : ℤ) (2 ^ 63 - 1)
  | s => min (digits (s.takeWhile isdigit) : ℤ) (2 ^ 63 - 1)

/-- The value of a 64-bit number stored in an `int`. -/
def toInt32 (n : ℤ) : ℤ := n.bmod (2 ^ 32)

/-- The regular expression of `IsDigitalStr`: digits, and behind a dot further ones. -/
def isDigitStr (s : Bytes) : Bool :=
  match cut 46 s with
  | none => s ≠ [] ∧ s.all isdigit
  | some (a, b) => a ≠ [] ∧ a.all isdigit ∧ b ≠ [] ∧ b.all isdigit

/-- `floors`, in hundredths: two digits behind the dot are kept. -/
def floors (s : Bytes) : ℕ :=
  match cut 46 s with
  | none => 100 * digits s
  | some (a, b) => 100 * digits a + digits ((b ++ [48, 48]).take 2)

/-- At most nine digits in front of the dot. -/
def rate100 (s : Bytes) : ℤ :=
  match cut 46 s with
  | none => if s.length ≤ 9 then atol s * 100 else 0
  | some (a, b) =>
    let x := if 2 ≤ b.length then a ++ b.take 2 else a ++ b.take 1 ++ [48]
    if x.length ≤ 11 then atol x else 0

end LibWebsocket.ApiServer

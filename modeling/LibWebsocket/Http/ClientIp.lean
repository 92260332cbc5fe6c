import LibWebsocket.Http.Parse
import LibWebsocket.Lib.CString

/-! The address of the client behind proxies, as the handshake and the API server choose it. -/
namespace LibWebsocket.Http
open Lib

def isdigit (c : UInt8) : Bool := 48 ≤ c ∧ c ≤ 57

/-- One number of the regular expression for addresses; alone, its digit is at least `low`. -/
def octet (low : UInt8) : Bytes → Bool
  | [a] => low ≤ a ∧ a ≤ 57
  | [a, b] => 49 ≤ a ∧ a ≤ 57 ∧ isdigit b
  | [a, b, c] =>
    a = 49 ∧ isdigit b ∧ isdigit c ∨ a = 50 ∧ 48 ≤ b ∧ b ≤ 52 ∧ isdigit c ∨
      a = 50 ∧ b = 53 ∧ 48 ≤ c ∧ c ≤ 53
  | _ => false

def isIpAddr (s : Bytes) : Bool :=
  match s.splitOn 46 with
  | [a, b, c, d] => octet 49 a ∧ octet 48 b ∧ octet 48 c ∧ octet 48 d
  | _ => false

/-- Addresses of the private networks, as far as the code knows them. -/
def isPrivate (ip : Bytes) : Bool :=
  strncasecmp ip (ascii "10.") 3 = 0 ∨ strncasecmp ip (ascii "192.168") 7 = 0 ∨
    strncasecmp ip (ascii "172.16.") 7 = 0

/-- The peer's address, or the first forwarded one that is accepted and not private. -/
def clientIp (accept : Bytes → Bool) (peerIp : Bytes) (req : HttpRequest) : Bytes :=
  let ipaddrs := req.getHeader (ascii "X-Forwarded-For")
  if ipaddrs = [] then peerIp
  else (((ipaddrs.filter (· ≠ 32)).splitOn 44).find? fun ip =>
    ip ≠ [] ∧ accept ip ∧ ¬ isPrivate ip).getD []

end LibWebsocket.Http

import LibWebsocket.Lib.Fallible
import LibWebsocket.ApiServer.Query

/-! `ApiServer::OrderProcess`: the checks that a request passes before its order is executed. -/
namespace LibWebsocket.ApiServer
open Lib Http

inductive ApiErrorCode
  | noError
  | gameHandleProxyIDError
  | gameHandleProxyMD5CodeError
  | gameHandleProxyDESCodeError
  | gameHandleParamsError
  | gameHandleOperationTypeError
deriving DecidableEq, Repr

def ApiErrorCode.value : ApiErrorCode → ℤ
  | noError => 0
  | gameHandleProxyIDError => -2
  | gameHandleProxyMD5CodeError => -3
  | gameHandleProxyDESCodeError => -4
  | gameHandleParamsError => -5
  | gameHandleOperationTypeError => -6

structure AgentInfo where
  status : ℤ
  agentId : ℤ
  descode : Bytes
  md5code : Bytes
deriving DecidableEq, Repr

/-- The arguments of `doOrderExecute`; the score is in hundredths. -/
structure Order where
  opType : ℤ
  account : Bytes
  score : ℕ
  agent : AgentInfo
  orderId : Bytes
deriving DecidableEq, Repr

/-- What `OrderProcess` reports, and the order it executed. -/
structure Reply where
  errcode : ApiErrorCode
  errmsg : String
  order : Option Order
deriving DecidableEq, Repr

/-- What the checks call: the sixteen bytes of the MD5 digest and the decoders of the parameter
value. -/
structure Codec where
  md5 : Bytes → Fin 16 → UInt8
  htmlDecode : Bytes → Bytes
  multipleDecode : Bytes → Bytes
  aesEcbDecrypt : Bytes → Bytes → Bytes

/-- The server: whether requests are encrypted, and its agents. -/
structure OrderServer where
  isdecrypt : Bool
  agentInfo : ℤ → Option AgentInfo

/-- The result of a check: an error with its message, or a value to go on with. -/
abbrev Checked := Except (ApiErrorCode × String)

def require (p : Prop) [Decidable p] (errcode : ApiErrorCode) (errmsg : String) : Checked Unit :=
  if p then .ok () else .error (errcode, errmsg)

def valueOr {α : Type} (o : Option α) (errcode : ApiErrorCode) (errmsg : String) : Checked α :=
  o.elim (.error (errcode, errmsg)) .ok

section Checked
variable {α : Type} {errcode : ApiErrorCode} {errmsg : String}

@[simp] theorem require_eq_ok_iff {p : Prop} [Decidable p] {u : Unit} :
    require p errcode errmsg = .ok u ↔ p := by
  unfold require
  split_ifs with h <;> simp [h]

@[simp] theorem valueOr_eq_ok_iff {o : Option α} {a : α} :
    valueOr o errcode errmsg = .ok a ↔ o = some a := by
  cases o <;> simp [valueOr]

end Checked

def hexDigit (upper : Bool) (n : ℕ) : UInt8 :=
  if n < 10 then .ofNat (48 + n) else .ofNat ((if upper then 55 else 87) + n)

namespace Codec

variable (cod : Codec)

def md5Encode32 (src : Bytes) (upper : Bool) : Bytes :=
  (List.ofFn (cod.md5 src)).flatMap fun b =>
    [hexDigit upper (b.toNat / 16), hexDigit upper (b.toNat % 16)]

/-- What the key of a request is compared with. -/
def digest (agentId : ℤ) (timestamp md5code : Bytes) : Bytes :=
  cod.md5Encode32 (ascii (toString agentId) ++ timestamp ++ md5code) true

/-- The comparison takes its length from the key. -/
def md5Check (agentId : ℤ) (timestamp md5code key : Bytes) : Bool :=
  strncasecmp (cod.digest agentId timestamp md5code) key (min 32 key.length) = 0

/-- One round of decoding; line breaks are removed. -/
def decodeRound (paraValue : Bytes) : Bytes :=
  (cod.multipleDecode paraValue).filter fun c => c ≠ 13 ∧ c ≠ 10

/-- A second round is made if the first gives nothing. -/
def decrypt (paraValue descode : Bytes) : Bytes :=
  let once := cod.decodeRound (cod.htmlDecode paraValue)
  let first := cod.aesEcbDecrypt once descode
  if first ≠ [] then first else cod.aesEcbDecrypt (cod.decodeRound once) descode

end Codec

/-- A value that is there and not empty. -/
def HttpParams.findNonempty (params : HttpParams) (key : String) : Option Bytes :=
  (params.find key).filter (· ≠ [])

/-- A number as the code reads it into an `int`. -/
def HttpParams.findInt (params : HttpParams) (key : String) : Option ℤ :=
  (params.findNonempty key).map fun s => toInt32 (atol s)

def HttpParams.findScore (params : HttpParams) : Option Bytes :=
  (params.findNonempty "score").filter fun s => isDigitStr s ∧ 0 < floors s ∧ 0 < rate100 s

/-- The checks on account, order and score. All of them are made; `err` is what earlier checks
have reported. -/
def orderFields (params : HttpParams) (err : Option ApiErrorCode) (errmsg : String) :
    Checked (Bytes × Bytes × ℕ) :=
  match params.findNonempty "account", params.findNonempty "orderid", params.findScore, err with
  | some account, some orderId, some score, none => .ok (account, orderId, floors score)
  | account, orderId, score, err =>
    let missing := account = none ∨ orderId = none ∨ score = none
    .error (if missing then .gameHandleParamsError else err.getD .noError,
      errmsg ++ (if account = none then "account " else "") ++
        (if orderId = none then "orderid " else "") ++
        (if score = none then "score " else "") ++ "invalid")

def OrderServer.agent (srv : OrderServer) (agentId : ℤ) : Checked AgentInfo := do
  let agent ← valueOr (srv.agentInfo agentId) .gameHandleProxyIDError "agent_info not found"
  require (agent.status ≠ 1) .gameHandleProxyIDError "agent.status error"
  pure agent

/-- The parameters of an encrypted request. -/
structure OrderParams where
  opType : ℤ
  agentId : ℤ
  timestamp : Bytes
  paraValue : Bytes
  key : Bytes
deriving DecidableEq, Repr

/-- Operations other than adding and subtracting score are refused. -/
def IsOpType (n : ℤ) : Prop := n = 2 ∨ n = 3

instance (n : ℤ) : Decidable (IsOpType n) := inferInstanceAs (Decidable (_ ∨ _))

def orderParams (params : HttpParams) : Checked OrderParams := do
  let opType ← valueOr ((params.findInt "type").filter (0 ≤ ·))
    .gameHandleOperationTypeError "type invalid"
  require (IsOpType opType) .gameHandleOperationTypeError "type value invalid"
  let agentId ← valueOr ((params.findInt "agentid").filter (0 < ·))
    .gameHandleParamsError "agentid invalid"
  let timestamp ← valueOr ((params.findNonempty "timestamp").filter (0 < atol ·))
    .gameHandleParamsError "timestamp invalid"
  let paraValue ← valueOr (params.findNonempty "paraValue")
    .gameHandleParamsError "paraValue invalid"
  let key ← valueOr (params.findNonempty "key") .gameHandleParamsError "key invalid"
  pure { opType, agentId, timestamp, paraValue, key }

/-- The part behind the MD5 check. -/
def decryptOrder (cod : Codec) (p : OrderParams) (agent : AgentInfo) : Checked Order := do
  let decrypt := cod.decrypt p.paraValue agent.descode
  require (decrypt ≠ []) .gameHandleProxyDESCodeError
    "DESDecrypt failed, AES_set_decrypt_key error"
  let (account, orderId, score) ← orderFields (parseQuery decrypt) none ""
  pure { opType := p.opType, account, score, agent, orderId }

/-- An encrypted request up to the execution of its order. -/
def encryptedOrder (cod : Codec) (srv : OrderServer) (params : HttpParams) : Checked Order := do
  let p ← orderParams params
  let agent ← srv.agent p.agentId
  require (cod.md5Check p.agentId p.timestamp agent.md5code p.key)
    .gameHandleProxyMD5CodeError "md5 check error"
  decryptOrder cod p agent

/-- A request in clear. A bad type is reported together with the fields behind it, a bad agent at
once. -/
def plainOrder (srv : OrderServer) (params : HttpParams) : Checked Order := do
  let opType := (params.findInt "type").getD 0
  let typeMsg := if (params.findInt "type").filter (0 ≤ ·) = none then "type " else ""
  let valueMsg := if IsOpType opType then "" else "type value "
  let err := if typeMsg ++ valueMsg = "" then none else some .gameHandleOperationTypeError
  let agentId ← valueOr ((params.findInt "agentid").filter (0 < ·))
    .gameHandleParamsError (typeMsg ++ valueMsg ++ "agentid ")
  let (account, orderId, score) ← orderFields params err (typeMsg ++ valueMsg)
  let agent ← srv.agent agentId
  pure { opType, account, score, agent, orderId }

/-- `doOrderExecute` is called exactly if an order comes out; it reports no error. -/
def orderProcess (cod : Codec) (srv : OrderServer) (reqStr : Bytes) : Reply :=
  let params := parseQuery reqStr
  match if srv.isdecrypt then encryptedOrder cod srv params else plainOrder srv params with
  | .ok order => ⟨.noError, "", some order⟩
  | .error (errcode, errmsg) => ⟨errcode, errmsg, none⟩

end LibWebsocket.ApiServer

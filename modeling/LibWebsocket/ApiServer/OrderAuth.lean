import LibWebsocket.ApiServer.Order

/-! Which keys authorise an order. The MD5 check compares as many characters as the key has, so a
key that is only a beginning of the digest passes, and so does one that goes on behind it. -/
namespace LibWebsocket.ApiServer
open Lib Http

/-- The digits of the digest are no lower-case letters, so case does not matter to them. -/
theorem hexDigit_true {n : ℕ} (h : n < 16) : hexDigit true n ≠ 0 ∧ hexDigit true n < 97 := by
  have hall : ∀ n < 16, hexDigit true n ≠ 0 ∧ hexDigit true n < 97 := by decide
  exact hall n h

namespace Codec

variable (cod : Codec) (agentId : ℤ) (timestamp md5code : Bytes)

theorem length_digest : (cod.digest agentId timestamp md5code).length = 32 := by
  simp [digest, md5Encode32]

theorem mem_digest {c : UInt8} (h : c ∈ cod.digest agentId timestamp md5code) :
    c ≠ 0 ∧ c < 97 := by
  rw [digest, md5Encode32, List.mem_flatMap] at h
  obtain ⟨b, -, hb⟩ := h
  have hlt : b.toNat < 256 := b.toNat_lt
  simp only [List.mem_cons, List.not_mem_nil, or_false] at hb
  rcases hb with rfl | rfl
  · exact hexDigit_true (by omega)
  · exact hexDigit_true (by omega)

theorem zero_notMem_digest : 0 ∉ cod.digest agentId timestamp md5code := by
  intro h
  exact (cod.mem_digest agentId timestamp md5code h).1 rfl

/-- A key passes if its first 32 characters are, ignoring case, the beginning of the digest. -/
theorem md5Check_iff (key : Bytes) :
    cod.md5Check agentId timestamp md5code key = true ↔
      (key.take 32).map tolower =
        ((cod.digest agentId timestamp md5code).take key.length).map tolower := by
  have hlen := cod.length_digest agentId timestamp md5code
  rw [md5Check, decide_eq_true_iff, strncasecmp_eq_zero_iff (by omega)
    (cod.zero_notMem_digest agentId timestamp md5code), eq_comm]
  have hkey : key.take (min 32 key.length) = key.take 32 := by
    rw [← List.take_take, List.take_length]
  have hdig : (cod.digest agentId timestamp md5code).take (min 32 key.length) =
      (cod.digest agentId timestamp md5code).take key.length := by
    rw [← hlen, Nat.min_comm, ← List.take_take, List.take_length]
  rw [hkey, hdig]

theorem md5Check_full {key : Bytes} (hkey : key.length = 32) :
    cod.md5Check agentId timestamp md5code key = true ↔
      key.map tolower = (cod.digest agentId timestamp md5code).map tolower := by
  have hlen := cod.length_digest agentId timestamp md5code
  rw [md5Check_iff, List.take_of_length_le (by omega), List.take_of_length_le (by omega)]

end Codec

variable {cod : Codec} {srv : OrderServer} {params : HttpParams} {p : OrderParams}

theorem findNonempty_eq_some {key : String} {v : Bytes} (h : params.findNonempty key = some v) :
    params.find key = some v :=
  (Option.filter_eq_some_iff.mp h).1

/-- What the checks of the outer parameters establish. -/
theorem orderParams_eq_ok (h : orderParams params = .ok p) :
    params.findInt "agentid" = some p.agentId ∧ params.find "timestamp" = some p.timestamp ∧
      params.find "key" = some p.key := by
  simp only [orderParams, bind_eq_ok_iff, valueOr_eq_ok_iff, require_eq_ok_iff] at h
  obtain ⟨opType, -, -, -, agentId, hagent, timestamp, htime, paraValue, -, key, hkey, hp⟩ := h
  cases hp
  exact ⟨(Option.filter_eq_some_iff.mp hagent).1,
    findNonempty_eq_some (Option.filter_eq_some_iff.mp htime).1, findNonempty_eq_some hkey⟩

theorem agent_eq_ok_iff {agentId : ℤ} {agent : AgentInfo} :
    srv.agent agentId = .ok agent ↔ srv.agentInfo agentId = some agent ∧ agent.status ≠ 1 := by
  simp only [OrderServer.agent, bind_eq_ok_iff, valueOr_eq_ok_iff, require_eq_ok_iff]
  constructor
  · rintro ⟨a, ha, -, hstatus, h⟩
    cases h
    exact ⟨ha, hstatus⟩
  · rintro ⟨ha, hstatus⟩
    exact ⟨agent, ha, (), hstatus, rfl⟩

theorem encryptedOrder_eq_ok_iff {o : Order} : encryptedOrder cod srv params = .ok o ↔
    ∃ p agent, orderParams params = .ok p ∧ srv.agent p.agentId = .ok agent ∧
      cod.md5Check p.agentId p.timestamp agent.md5code p.key = true ∧
      decryptOrder cod p agent = .ok o := by
  simp only [encryptedOrder, bind_eq_ok_iff, require_eq_ok_iff]
  constructor
  · rintro ⟨p, hp, agent, ha, -, hmd5, ho⟩
    exact ⟨p, agent, hp, ha, hmd5, ho⟩
  · rintro ⟨p, agent, hp, ha, hmd5, ho⟩
    exact ⟨p, hp, agent, ha, (), hmd5, ho⟩

/-- The request leads to an order that is executed. -/
def Executes (cod : Codec) (srv : OrderServer) (reqStr : Bytes) : Prop :=
  ∃ o, (orderProcess cod srv reqStr).order = some o

theorem executes_iff {reqStr : Bytes} (hsrv : srv.isdecrypt = true) :
    Executes cod srv reqStr ↔ ∃ o, encryptedOrder cod srv (parseQuery reqStr) = .ok o := by
  rw [Executes, orderProcess, if_pos hsrv]
  rcases encryptedOrder cod srv (parseQuery reqStr) with ⟨errcode, errmsg⟩ | o
  · simp
  · simp

/-- The key of the request is the digest for the agent the request names, ignoring case. -/
def FullKey (cod : Codec) (srv : OrderServer) (params : HttpParams) : Prop :=
  ∃ agentId timestamp key agent, params.findInt "agentid" = some agentId ∧
    params.find "timestamp" = some timestamp ∧ params.find "key" = some key ∧
    srv.agentInfo agentId = some agent ∧ key.length = 32 ∧
    key.map tolower = (cod.digest agentId timestamp agent.md5code).map tolower

/-- The server with another MD5 code for one agent. -/
def OrderServer.setMd5code (srv : OrderServer) (agentId : ℤ) (agent : AgentInfo)
    (md5code : Bytes) : OrderServer :=
  { srv with agentInfo := Function.update srv.agentInfo agentId (some { agent with md5code }) }

theorem agentInfo_setMd5code (srv : OrderServer) (agentId : ℤ) (agent : AgentInfo)
    (md5code : Bytes) :
    (srv.setMd5code agentId agent md5code).agentInfo agentId = some { agent with md5code } :=
  Function.update_self agentId _ _

/-- No other MD5 code of the agent with another digest lets the request through as well. -/
def OneMd5code (cod : Codec) (srv : OrderServer) (reqStr : Bytes) : Prop :=
  ∀ agentId timestamp agent md5code, (parseQuery reqStr).findInt "agentid" = some agentId →
    (parseQuery reqStr).find "timestamp" = some timestamp → srv.agentInfo agentId = some agent →
    cod.digest agentId timestamp md5code ≠ cod.digest agentId timestamp agent.md5code →
    ¬ (Executes cod srv reqStr ∧ Executes cod (srv.setMd5code agentId agent md5code) reqStr)

/-- A request that would pass all other checks has a key of 32 characters, or one that is wrong
within its first 32. -/
def KeysFull (cod : Codec) (srv : OrderServer) (params : HttpParams) : Prop :=
  ∀ p agent o, orderParams params = .ok p → srv.agent p.agentId = .ok agent →
    decryptOrder cod p agent = .ok o →
    p.key.length = 32 ∨ (p.key.take 32).map tolower ≠
      ((cod.digest p.agentId p.timestamp agent.md5code).take p.key.length).map tolower

theorem fullKey_iff {p : OrderParams} {agent : AgentInfo} (hp : orderParams params = .ok p)
    (ha : srv.agent p.agentId = .ok agent) :
    FullKey cod srv params ↔ p.key.length = 32 ∧
      p.key.map tolower = (cod.digest p.agentId p.timestamp agent.md5code).map tolower := by
  obtain ⟨hid, htime, hkey⟩ := orderParams_eq_ok hp
  have hagent := (agent_eq_ok_iff.mp ha).1
  constructor
  · rintro ⟨agentId, timestamp, key, agent', hid', htime', hkey', hagent', h⟩
    rw [hid] at hid'
    cases hid'
    rw [htime] at htime'
    cases htime'
    rw [hkey] at hkey'
    cases hkey'
    rw [hagent] at hagent'
    cases hagent'
    exact h
  · rintro ⟨hlen, h⟩
    exact ⟨_, _, _, agent, hid, htime, hkey, hagent, hlen, h⟩

theorem executes_fullKey_iff {reqStr : Bytes} (hsrv : srv.isdecrypt = true) :
    (Executes cod srv reqStr → FullKey cod srv (parseQuery reqStr)) ↔
      KeysFull cod srv (parseQuery reqStr) := by
  rw [executes_iff hsrv]
  simp only [encryptedOrder_eq_ok_iff, Codec.md5Check_iff]
  constructor
  · intro h p agent o hp ha ho
    by_cases hmd5 : (p.key.take 32).map tolower =
        ((cod.digest p.agentId p.timestamp agent.md5code).take p.key.length).map tolower
    · exact .inl ((fullKey_iff hp ha).mp (h ⟨o, p, agent, hp, ha, hmd5, ho⟩)).1
    · exact .inr hmd5
  · rintro h ⟨o, p, agent, hp, ha, hmd5, ho⟩
    have hlen : p.key.length = 32 := (h p agent o hp ha ho).resolve_right fun hne => hne hmd5
    rw [← Codec.md5Check_iff, Codec.md5Check_full _ _ _ _ hlen] at hmd5
    exact (fullKey_iff hp ha).mpr ⟨hlen, hmd5⟩

/-- A key that is the whole digest fits one digest only. -/
theorem oneMd5code_of_fullKey {reqStr : Bytes} (hsrv : srv.isdecrypt = true)
    (h : Executes cod srv reqStr → FullKey cod srv (parseQuery reqStr)) :
    OneMd5code cod srv reqStr := by
  rintro agentId timestamp agent md5code hid htime hagent hne ⟨hexec, hexec'⟩
  obtain ⟨agentId', timestamp', key, agent', hid', htime', hkey, hagent', hlen, hdig⟩ := h hexec
  rw [hid] at hid'
  cases hid'
  rw [htime] at htime'
  cases htime'
  rw [hagent] at hagent'
  cases hagent'
  have hsrv' : (srv.setMd5code agentId agent md5code).isdecrypt = true := hsrv
  obtain ⟨o, ho⟩ := (executes_iff hsrv').mp hexec'
  obtain ⟨p, agent₁, hp, ha₁, hmd5, -⟩ := encryptedOrder_eq_ok_iff.mp ho
  obtain ⟨hpid, hptime, hpkey⟩ := orderParams_eq_ok hp
  rw [hid] at hpid
  rw [htime] at hptime
  rw [hkey] at hpkey
  cases hpid
  cases hptime
  cases hpkey
  have hupd := (agent_eq_ok_iff.mp ha₁).1
  rw [agentInfo_setMd5code] at hupd
  cases hupd
  rw [Codec.md5Check_full _ _ _ _ hlen, hdig] at hmd5
  have hlow : ∀ {agentId timestamp md5code}, ∀ c ∈ cod.digest agentId timestamp md5code, c < 97 :=
    fun c hc => (cod.mem_digest _ _ _ hc).2
  exact hne (map_tolower_inj hlow hlow hmd5.symm)

/-- Only the full digest authorises an order, and only for one MD5 code, exactly if no request
with a key of another length gets as far as the MD5 check with a key that begins the digest. -/
theorem full_digest_authorises_iff {reqStr : Bytes} (hsrv : srv.isdecrypt = true) :
    (Executes cod srv reqStr → FullKey cod srv (parseQuery reqStr)) ∧ OneMd5code cod srv reqStr ↔
      KeysFull cod srv (parseQuery reqStr) := by
  rw [← executes_fullKey_iff hsrv]
  exact and_iff_left_of_imp (oneMd5code_of_fullKey hsrv)

/-- A codec whose digests differ in their last byte only. -/
def sampleCodec : Codec where
  md5 src i := if i = 15 then .ofNat src.length else 0
  htmlDecode := id
  multipleDecode := id
  aesEcbDecrypt _ _ := ascii "account=a&orderid=b&score=1"

/-- One agent, with an empty MD5 code. -/
def sampleServer : OrderServer where
  isdecrypt := true
  agentInfo n := if n = 1 then some ⟨0, 1, [], []⟩ else none

def sampleRequest (key : String) : Bytes :=
  ascii "type=2&agentid=1&timestamp=1&paraValue=x&key=" ++ ascii key

theorem full_digest_authorises_sample :
    (Executes sampleCodec sampleServer (sampleRequest "00000000000000000000000000000002") →
      FullKey sampleCodec sampleServer
        (parseQuery (sampleRequest "00000000000000000000000000000002"))) ∧
      OneMd5code sampleCodec sampleServer (sampleRequest "00000000000000000000000000000002") := by
  refine (full_digest_authorises_iff rfl).mpr fun p agent o hp _ _ => .inl ?_
  have hparams : orderParams (parseQuery (sampleRequest "00000000000000000000000000000002")) =
      .ok ⟨2, 1, ascii "1", ascii "x", ascii "00000000000000000000000000000002"⟩ := by decide
  rw [hparams] at hp
  cases hp
  decide

/-- A key of one character lets a request through. -/
theorem one_character_authorises :
    sampleServer.isdecrypt = true ∧
      ¬ ((Executes sampleCodec sampleServer (sampleRequest "0") →
          FullKey sampleCodec sampleServer (parseQuery (sampleRequest "0"))) ∧
        OneMd5code sampleCodec sampleServer (sampleRequest "0")) := by
  refine ⟨rfl, fun h => ?_⟩
  have hexec : Executes sampleCodec sampleServer (sampleRequest "0") := ⟨_, rfl⟩
  obtain ⟨_, _, key, _, -, -, hkey, -, hlen, -⟩ := h.1 hexec
  have hfound : (parseQuery (sampleRequest "0")).find "key" = some (ascii "0") := by decide
  rw [hfound] at hkey
  cases hkey
  exact absurd hlen (by decide)

end LibWebsocket.ApiServer

import LibWebsocket.ApiServer.Order
import LibWebsocket.Crypto.ClearPadding
import LibWebsocket.Html.Codec
import LibWebsocket.Url.Layers

/-! The way of an order from a client to `OrderProcess`: AES, Base64 and an URL encoding, and back
through all the decoders of the server. -/
namespace LibWebsocket.ApiServer
open Lib Crypto

/-- The decoders of the server are those of its sources; `AES_ECBDecrypt` as far as it stays in
its buffers. -/
structure Codec.Implements (cod : Codec) (ssl : OpenSsl) (accepts : Bytes → Bool) (past : Bytes) :
    Prop where
  htmlDecode : cod.htmlDecode = Html.decode
  multipleDecode : cod.multipleDecode = Url.multipleDecode
  aesEcbDecrypt : ∀ data key s, Crypto.aesEcbDecrypt ssl accepts past data key = .ok s →
    cod.aesEcbDecrypt data key = s

/-- The decoders of the sources; a call of `AES_ECBDecrypt` that leaves its buffers gives nothing
here. -/
def Codec.ofSources (md5 : Bytes → Fin 16 → UInt8) (ssl : OpenSsl) (accepts : Bytes → Bool)
    (past : Bytes) : Codec where
  md5 := md5
  htmlDecode := Html.decode
  multipleDecode := Url.multipleDecode
  aesEcbDecrypt data key := (Crypto.aesEcbDecrypt ssl accepts past data key).toOption.getD []

theorem implements_ofSources (md5 : Bytes → Fin 16 → UInt8) (ssl : OpenSsl)
    (accepts : Bytes → Bool) (past : Bytes) :
    (Codec.ofSources md5 ssl accepts past).Implements ssl accepts past where
  htmlDecode := by simp only [Codec.ofSources]
  multipleDecode := by simp only [Codec.ofSources]
  aesEcbDecrypt data key s h := by simp only [Codec.ofSources, h, Except.toOption, Option.getD_some]

/-- What a client puts into `paraValue`. -/
def envelope (ssl : OpenSsl) (order descode : Bytes) : Bytes :=
  Url.multipleEncode (aesEcbEncrypt ssl order descode)

section Characters

theorem base64_plain : ∀ c : UInt8, Base64.isBase64 c ∨ c = 61 →
    c ≠ 37 ∧ ¬ Http.HttpRequest.isspace c ∧ c ≠ 13 ∧ c ≠ 10 :=
  forall_byte (by decide +kernel)

theorem amp_notMem_encodeByte : ∀ c : UInt8, 38 ∉ Url.encodeByte c :=
  forall_byte (by decide +kernel)

theorem amp_notMem_multipleEncode (s : Bytes) : 38 ∉ Url.multipleEncode s := by
  intro h
  rw [Url.multipleEncode] at h
  obtain ⟨c, -, hc⟩ := List.mem_flatMap.mp h
  exact amp_notMem_encodeByte c hc

end Characters

section Server
variable {cod : Codec} {ssl : OpenSsl} {accepts : Bytes → Bool} {past : Bytes}
  (hcod : cod.Implements ssl accepts past)
include hcod

/-- The first round of decoding gives the Base64 text back. -/
theorem decodeRound_envelope (order descode : Bytes) :
    cod.decodeRound (cod.htmlDecode (envelope ssl order descode)) =
      aesEcbEncrypt ssl order descode := by
  have hplain : ∀ c ∈ aesEcbEncrypt ssl order descode, _ := fun c hc =>
    base64_plain c (Base64.mem_encode hc)
  have hpercent : 37 ∉ aesEcbEncrypt ssl order descode := fun h => (hplain 37 h).1 rfl
  have hurl : Url.multipleDecode (envelope ssl order descode) = aesEcbEncrypt ssl order descode :=
    Url.multipleDecode_multipleEncode hpercent fun c hc => (hplain c hc).2.1
  have hhtml : Html.decode (envelope ssl order descode) = envelope ssl order descode :=
    Html.decode_eq_self (amp_notMem_multipleEncode _)
  rw [Codec.decodeRound, hcod.htmlDecode, hhtml, hcod.multipleDecode, hurl, List.filter_eq_self]
  intro c hc
  exact decide_eq_true (hplain c hc).2.2

variable (hssl : ssl.Inverts) {order : Bytes} (horder : order ≠ [])
  (hprint : ∀ c ∈ order, printable c) (haccepts : accepts order) (hpast : past ≠ [])
include hssl horder hprint haccepts hpast

/-- The server reads the order that the client has written. -/
theorem decrypt_envelope {descode : Bytes} (hkey : descode.length = 16) (hnul : 0 ∉ descode) :
    cod.decrypt (envelope ssl order descode) descode = order := by
  have hdata := decode_aesEcbEncrypt ssl (zero_notMem_of_printable hprint) hkey hnul
  have hfirst := hcod.aesEcbDecrypt _ _ _
    (aesEcbDecrypt_blocks hssl horder hprint haccepts hkey hpast hdata)
  rw [Codec.decrypt, decodeRound_envelope hcod, hfirst, if_pos horder]

variable {p : OrderParams} {agent : AgentInfo} (hkey : agent.descode.length = 16)
  (hnul : 0 ∉ agent.descode) (hp : p.paraValue = envelope ssl order agent.descode)
include hkey hnul hp

theorem decryptOrder_envelope :
    decryptOrder cod p agent = (orderFields (parseQuery order) none "").map
      fun (account, orderId, score) => { opType := p.opType, account, score, agent, orderId } := by
  have hdec := decrypt_envelope hcod hssl horder hprint haccepts hpast hkey hnul
  rw [decryptOrder, hp, hdec]
  simp only [require, if_pos horder, ok_bind]
  cases orderFields (parseQuery order) none "" <;> rfl

/-- What a request with the right MD5 executes is made of the fields of the client's query, and
its faults are those of that query. -/
theorem orderProcess_envelope {srv : OrderServer} (hsrv : srv.isdecrypt) {reqStr : Bytes}
    (hparams : orderParams (parseQuery reqStr) = .ok p) (hagent : srv.agent p.agentId = .ok agent)
    (hmd5 : cod.md5Check p.agentId p.timestamp agent.md5code p.key) :
    orderProcess cod srv reqStr = match orderFields (parseQuery order) none "" with
      | .ok (account, orderId, score) =>
        ⟨.noError, "", some { opType := p.opType, account, score, agent, orderId }⟩
      | .error (errcode, errmsg) => ⟨errcode, errmsg, none⟩ := by
  have horders : encryptedOrder cod srv (parseQuery reqStr) =
      (orderFields (parseQuery order) none "").map fun (account, orderId, score) =>
        { opType := p.opType, account, score, agent, orderId } := by
    rw [encryptedOrder, hparams, ok_bind, hagent, ok_bind, require, if_pos hmd5, ok_bind]
    exact decryptOrder_envelope hcod hssl horder hprint haccepts hpast hkey hnul hp
  simp only [orderProcess, hsrv, if_true, horders]
  cases orderFields (parseQuery order) none "" <;> rfl

end Server

end LibWebsocket.ApiServer

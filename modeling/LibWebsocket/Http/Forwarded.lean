import LibWebsocket.Http.ClientIp
import LibWebsocket.Lib.Search

/-! The forwarded address as it is meant: the first entry of the header that is not an address of
a private network of RFC 1918, and the peer's address if there is none. The code's three tests of
the beginning of an entry are not that of the address ranges. -/
namespace LibWebsocket.Http
open Lib

def decimal (s : Bytes) : ℕ := s.foldl (fun n c => 10 * n + (c.toNat - 48)) 0

/-- A number up to 255, in decimal and without leading zeros. -/
def decOctet? (s : Bytes) : Option ℕ :=
  if s ≠ [] ∧ s.all isdigit ∧ (s.length = 1 ∨ s.head? ≠ some 48) ∧ decimal s ≤ 255 then
    some (decimal s)
  else none

def dottedQuad? (ip : Bytes) : Option (ℕ × ℕ × ℕ × ℕ) :=
  match ip.splitOn 46 with
  | [a, b, c, d] => do
    let a ← decOctet? a
    let b ← decOctet? b
    let c ← decOctet? c
    let d ← decOctet? d
    some (a, b, c, d)
  | _ => none

/-- An address in 10/8, 172.16/12 or 192.168/16. -/
def rfc1918 (ip : Bytes) : Bool :=
  match dottedQuad? ip with
  | some (a, b, _, _) => a = 10 ∨ a = 172 ∧ 16 ≤ b ∧ b ≤ 31 ∨ a = 192 ∧ b = 168
  | none => false

/-- The entries of a list of addresses, without spaces. -/
def entries (header : Bytes) : List Bytes := (header.filter (· ≠ 32)).splitOn 44

/-- What the entry chosen by the code and by RFC 1918 must be. -/
def acceptable (isPrivate : Bytes → Bool) (ip : Bytes) : Bool := ip ≠ [] ∧ ¬ isPrivate ip

/-- The first entry that is no private address, and `peer` if there is none. -/
def forwardedAddress (peer header : Bytes) : Bytes :=
  ((entries header).find? (acceptable rfc1918)).getD peer

section Find
variable {α : Type*} {p q : α → Bool} {l : List α} {a : α}

theorem find?_of_find?_or (h : l.find? (fun a => p a || q a) = some a) (ha : p a = true) :
    l.find? p = some a := by
  induction l with
  | nil => cases h
  | cons b l ih =>
    rw [List.find?_cons] at h ⊢
    cases hp : p b with
    | true => simpa [hp] using h
    | false =>
      cases hq : q b with
      | true =>
        obtain rfl : b = a := by simpa [hp, hq] using h
        rw [hp] at ha
        cases ha
      | false => exact ih (by simpa [hp, hq] using h)

theorem find?_or_of_eq (hp : l.find? p = some a) (hq : l.find? q = some a) :
    l.find? (fun a => p a || q a) = some a := by
  cases h : l.find? (fun a => p a || q a) with
  | none =>
    have hnone := List.find?_eq_none.mp h a (List.mem_of_find?_eq_some hp)
    have hpa := List.find?_some hp
    simp [hpa] at hnone
  | some b =>
    have hb := List.find?_some h
    rw [Bool.or_eq_true] at hb
    rcases hb with hb | hb
    · rw [← hp, find?_of_find?_or h hb]
    · have hswap : l.find? (fun a => q a || p a) = some b := by
        simpa only [Bool.or_comm] using h
      rw [← hq, find?_of_find?_or hswap hb]

end Find

/-- The first entry that is not private for the code or for RFC 1918 exists, and is private for
neither. -/
def SameChoice (header : Bytes) : Prop :=
  ∃ ip, (entries header).find? (fun ip => acceptable isPrivate ip || acceptable rfc1918 ip) =
    some ip ∧ acceptable isPrivate ip = true ∧ acceptable rfc1918 ip = true

theorem clientIp_eq {peer : Bytes} (req : HttpRequest) :
    clientIp (fun _ => true) peer req =
      if req.getHeader (ascii "X-Forwarded-For") = [] then peer
      else ((entries (req.getHeader (ascii "X-Forwarded-For"))).find?
        (acceptable isPrivate)).getD [] := by
  have hp : (fun ip : Bytes => decide (ip ≠ [] ∧ true = true ∧ ¬ isPrivate ip = true)) =
      acceptable isPrivate := by
    funext ip
    simp [acceptable]
  unfold clientIp entries
  simp only [← hp]

/-- Whatever the peer's address, the code takes the address that is meant exactly if there is no
header or both choices are the same. -/
theorem clientIp_eq_forwardedAddress_iff (req : HttpRequest) :
    (∀ peer, clientIp (fun _ => true) peer req =
        forwardedAddress peer (req.getHeader (ascii "X-Forwarded-For"))) ↔
      req.getHeader (ascii "X-Forwarded-For") = [] ∨
        SameChoice (req.getHeader (ascii "X-Forwarded-For")) := by
  simp only [clientIp_eq]
  generalize req.getHeader (ascii "X-Forwarded-For") = header
  by_cases hnil : header = []
  · subst hnil
    exact iff_of_true (fun peer => rfl) (.inl rfl)
  · rw [or_iff_right hnil]
    simp only [if_neg hnil, forwardedAddress]
    constructor
    · intro h
      -- without an entry of its own the meant address would change with the peer's
      obtain ⟨ip, hip⟩ : ∃ ip, (entries header).find? (acceptable rfc1918) = some ip := by
        cases hfind : (entries header).find? (acceptable rfc1918) with
        | some ip => exact ⟨ip, rfl⟩
        | none =>
          simp only [hfind, Option.getD_none] at h
          have := (h []).symm.trans (h [0])
          cases this
      have hok := List.find?_some hip
      have hne : ip ≠ [] := by
        simp only [acceptable, decide_eq_true_eq] at hok
        exact hok.1
      have hcode : (entries header).find? (acceptable isPrivate) = some ip := by
        have heq := h []
        rw [hip, Option.getD_some] at heq
        cases hfind : (entries header).find? (acceptable isPrivate) with
        | none =>
          rw [hfind] at heq
          exact absurd heq.symm hne
        | some ip' =>
          rw [hfind] at heq
          exact congrArg some heq
      exact ⟨ip, find?_or_of_eq hcode hip, List.find?_some hcode, hok⟩
    · rintro ⟨ip, hfind, hcode, hspec⟩ peer
      have hswap : (entries header).find?
          (fun ip => acceptable rfc1918 ip || acceptable isPrivate ip) = some ip := by
        simpa only [Bool.or_comm] using hfind
      rw [find?_of_find?_or hfind hcode, find?_of_find?_or hswap hspec]
      rfl

theorem isPrivate_iff {ip : Bytes} :
    isPrivate ip = true ↔
      ascii "10." <+: ip ∨ ascii "192.168" <+: ip ∨ ascii "172.16." <+: ip := by
  have h10 : strncasecmp ip (ascii "10.") 3 = 0 ↔ ascii "10." <+: ip :=
    strncasecmp_length_eq_zero_iff (by decide)
  have h192 : strncasecmp ip (ascii "192.168") 7 = 0 ↔ ascii "192.168" <+: ip :=
    strncasecmp_length_eq_zero_iff (by decide)
  have h172 : strncasecmp ip (ascii "172.16.") 7 = 0 ↔ ascii "172.16." <+: ip :=
    strncasecmp_length_eq_zero_iff (by decide)
  rw [isPrivate, decide_eq_true_iff, h10, h192, h172]

section Quad
variable {s : Bytes} {n : ℕ}

/-- The text of a number up to 255. -/
def octetText (n : ℕ) : Bytes :=
  if n < 10 then [UInt8.ofNat (48 + n)]
  else if n < 100 then [UInt8.ofNat (48 + n / 10), UInt8.ofNat (48 + n % 10)]
  else [UInt8.ofNat (48 + n / 100), UInt8.ofNat (48 + n / 10 % 10), UInt8.ofNat (48 + n % 10)]

theorem le_decimal_foldl (l : Bytes) :
    n * 10 ^ l.length ≤ l.foldl (fun n c => 10 * n + (c.toNat - 48)) n := by
  induction l generalizing n with
  | nil => simp
  | cons c l ih =>
    have hstep : n * 10 ^ (l.length + 1) ≤ (10 * n + (c.toNat - 48)) * 10 ^ l.length := by
      rw [pow_succ', ← mul_assoc, mul_comm n 10]
      exact Nat.mul_le_mul_right _ (Nat.le_add_right _ _)
    exact hstep.trans ih

theorem isdigit_iff {c : UInt8} : isdigit c = true ↔ 48 ≤ c.toNat ∧ c.toNat ≤ 57 := by
  simp [isdigit, UInt8.le_iff_toNat_le]

theorem eq_ofNat {c : UInt8} {k : ℕ} (h : c.toNat = k) : c = UInt8.ofNat k := by
  rw [← h, UInt8.ofNat_toNat]

/-- A number is written in one way only. -/
theorem eq_octetText (h : decOctet? s = some n) : s = octetText n ∧ 46 ∉ s := by
  unfold decOctet? at h
  split_ifs at h with hs
  obtain ⟨hne, hdigits, hlead, hle⟩ := hs
  obtain rfl : decimal s = n := Option.some.inj h
  have hdot : 46 ∉ s := fun hmem => by
    have := List.all_eq_true.mp hdigits 46 hmem
    simp [isdigit] at this
  refine ⟨?_, hdot⟩
  simp only [List.all_eq_true, isdigit_iff] at hdigits
  match s with
  | [] => exact absurd rfl hne
  | [a] =>
    have ha := hdigits a (by simp)
    have hval : decimal [a] = a.toNat - 48 := by simp [decimal]
    rw [octetText, hval, if_pos (by omega), ← eq_ofNat (c := a) (by omega)]
  | [a, b] =>
    have ha := hdigits a (by simp)
    have hb := hdigits b (by simp)
    have hpos : a.toNat ≠ 48 := fun h => by simp [eq_ofNat h] at hlead
    have hval : decimal [a, b] = 10 * (a.toNat - 48) + (b.toNat - 48) := by simp [decimal]
    rw [octetText, hval, if_neg (by omega), if_pos (by omega), ← eq_ofNat (c := a) (by omega),
      ← eq_ofNat (c := b) (by omega)]
  | [a, b, c] =>
    have ha := hdigits a (by simp)
    have hb := hdigits b (by simp)
    have hc := hdigits c (by simp)
    have hpos : a.toNat ≠ 48 := fun h => by simp [eq_ofNat h] at hlead
    have hval : decimal [a, b, c] =
        10 * (10 * (a.toNat - 48) + (b.toNat - 48)) + (c.toNat - 48) := by simp [decimal]
    rw [octetText, hval, if_neg (by omega), if_neg (by omega), ← eq_ofNat (c := a) (by omega),
      ← eq_ofNat (c := b) (by omega), ← eq_ofNat (c := c) (by omega)]
  | a :: b :: c :: d :: l =>
    -- four digits and more are at least a thousand
    have ha := hdigits a (by simp)
    have hpos : a.toNat ≠ 48 := fun h => by simp [eq_ofNat h] at hlead
    have hlow : (10 * 0 + (a.toNat - 48)) * 10 ^ (b :: c :: d :: l).length ≤
        decimal (a :: b :: c :: d :: l) := le_decimal_foldl (b :: c :: d :: l)
    have hpow : 10 ^ 3 ≤ 10 ^ (b :: c :: d :: l).length :=
      Nat.pow_le_pow_right (by decide) (by simp)
    have hone := Nat.mul_le_mul (show 1 ≤ 10 * 0 + (a.toNat - 48) by omega) hpow
    omega

theorem dottedQuad?_eq_some {ip : Bytes} {a b c d : ℕ} (h : dottedQuad? ip = some (a, b, c, d)) :
    ∃ A B rest, ip = A ++ 46 :: (B ++ 46 :: rest) ∧ decOctet? A = some a ∧
      decOctet? B = some b := by
  unfold dottedQuad? at h
  split at h
  · rename_i A B C D hsplit
    have hjoin : [46].intercalate (ip.splitOn 46) = ip := List.intercalate_splitOn 46
    rw [hsplit] at hjoin
    obtain ⟨a', hA, h⟩ := Option.bind_eq_some_iff.mp h
    obtain ⟨b', hB, h⟩ := Option.bind_eq_some_iff.mp h
    obtain ⟨c', -, h⟩ := Option.bind_eq_some_iff.mp h
    obtain ⟨d', -, h⟩ := Option.bind_eq_some_iff.mp h
    cases h
    refine ⟨A, B, C ++ 46 :: D, ?_, hA, hB⟩
    rw [← hjoin]
    simp [List.intercalate]
  · cases h

theorem eq_octetText_iff (h : decOctet? s = some n) {m : ℕ}
    (hm : decOctet? (octetText m) = some m) : octetText m = s ↔ n = m := by
  constructor
  · rintro rfl
    exact Option.some.inj (h.symm.trans hm)
  · rintro rfl
    exact (eq_octetText h).1.symm

theorem length_octetText_le : (octetText n).length ≤ 3 := by
  unfold octetText
  split_ifs <;> simp

/-- Of the private networks the code knows one sixteenth of 172.16/12. -/
theorem isPrivate_dottedQuad_iff {ip : Bytes} {a b c d : ℕ}
    (h : dottedQuad? ip = some (a, b, c, d)) :
    isPrivate ip = true ↔ a = 10 ∨ a = 192 ∧ b = 168 ∨ a = 172 ∧ b = 16 := by
  obtain ⟨A, B, rest, rfl, hA, hB⟩ := dottedQuad?_eq_some h
  obtain ⟨-, hAdot⟩ := eq_octetText hA
  obtain ⟨hBtext, hBdot⟩ := eq_octetText hB
  have hlen : B.length ≤ (octetText 168).length := by
    rw [hBtext]
    exact length_octetText_le
  have h10 : ascii "10." <+: A ++ 46 :: (B ++ 46 :: rest) ↔ a = 10 := by
    refine (append_cons_prefix_iff (l := octetText 10) (r := []) (by decide) hAdot).trans ?_
    rw [eq_octetText_iff hA (by decide), and_iff_left List.nil_prefix]
  have h192 : ascii "192.168" <+: A ++ 46 :: (B ++ 46 :: rest) ↔ a = 192 ∧ b = 168 := by
    refine (append_cons_prefix_iff (l := octetText 192) (r := octetText 168) (by decide)
      hAdot).trans ?_
    rw [eq_octetText_iff hA (by decide), prefix_append_cons_iff (by decide) hlen,
      eq_octetText_iff hB (by decide)]
  have h172 : ascii "172.16." <+: A ++ 46 :: (B ++ 46 :: rest) ↔ a = 172 ∧ b = 16 := by
    refine (append_cons_prefix_iff (l := octetText 172) (r := octetText 16 ++ [46]) (by decide)
      hAdot).trans ?_
    rw [eq_octetText_iff hA (by decide), append_cons_prefix_iff (by decide) hBdot,
      eq_octetText_iff hB (by decide), and_iff_left List.nil_prefix]
  rw [isPrivate_iff, h10, h192, h172]

end Quad

end LibWebsocket.Http

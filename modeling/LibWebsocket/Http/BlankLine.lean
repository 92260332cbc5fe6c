import LibWebsocket.Http.Lines

/-! The blank line that ends a request. A handshake looks for it in the whole buffer, the parser
meets it line by line: a buffer that has one is parsed to its end or refused. -/
namespace LibWebsocket.Http
open Lib

theorem crlf_append_drop {b : Bytes} {n : ℕ} (hn : Buffer.findCRLF b = some n) :
    crlf ++ b.drop (n + 2) = b.drop n := by
  obtain ⟨⟨t, ht⟩, -⟩ := (search_eq_some_iff crlf_ne_nil).mp hn
  have hdrop : b.drop (n + 2) = t := by
    rw [← List.drop_drop, ← ht]
    rfl
  rw [hdrop, ht]

/-- A blank line is still to come, where the bytes read so far end in a line break. -/
def BlankAhead (b : Bytes) : Prop := ∃ k, crlfcrlf <+: (crlf ++ b).drop k

theorem crlf_prefix_drop {b : Bytes} {k : ℕ} (h : crlfcrlf <+: (crlf ++ b).drop k) :
    crlf <+: b.drop k := by
  obtain ⟨t, ht⟩ := h
  have htail : (crlf ++ b).drop (k + 2) = b.drop k := rfl
  refine ⟨t, ?_⟩
  rw [← htail, ← List.drop_drop, ← ht]
  rfl

namespace BlankAhead
variable {b : Bytes} {n : ℕ}

theorem findCRLF (h : BlankAhead b) : ∃ n, Buffer.findCRLF b = some n := by
  obtain ⟨k, hk⟩ := h
  obtain ⟨n, -, hn⟩ := exists_search_le crlf_ne_nil (crlf_prefix_drop hk)
  exact ⟨n, hn⟩

/-- A line that is not blank leaves the blank line ahead. -/
theorem drop_line (h : BlankAhead b) (hn : Buffer.findCRLF b = some n) (hline : b.take n ≠ []) :
    BlankAhead (b.drop (n + 2)) := by
  obtain ⟨k, hk⟩ := h
  obtain ⟨-, hmin⟩ := (search_eq_some_iff crlf_ne_nil).mp hn
  have hpos : 0 < n := Nat.pos_of_ne_zero fun hzero => hline (by rw [hzero, List.take_zero])
  -- an earlier blank line would be an earlier line break, or would start with a line feed
  have hle : n + 2 ≤ k := by
    by_contra hlt
    match k with
    | 0 => exact hmin 0 hpos (crlf_prefix_drop hk)
    | 1 =>
      obtain ⟨t, ht⟩ := hk
      cases ht
    | k + 2 =>
      have hk' : crlfcrlf <+: b.drop k := hk
      have hcrlf : crlf <+: crlfcrlf := ⟨crlf, rfl⟩
      exact hmin k (by omega) (hcrlf.trans hk')
  obtain ⟨j, rfl⟩ : ∃ j, k = n + j + 2 := ⟨k - 2 - n, by omega⟩
  have hj : crlfcrlf <+: b.drop (n + j) := hk
  refine ⟨j, ?_⟩
  rwa [crlf_append_drop hn, List.drop_drop]

theorem of_findCRLFCRLF {p : ℕ} (hp : Buffer.findCRLFCRLF b = some p)
    (hn : Buffer.findCRLF b = some n) : BlankAhead (b.drop (n + 2)) := by
  obtain ⟨hocc, -⟩ := (search_eq_some_iff crlfcrlf_ne_nil).mp hp
  have hcrlf : crlf <+: crlfcrlf := ⟨crlf, rfl⟩
  obtain ⟨m, hm, hfirst⟩ := exists_search_le crlf_ne_nil (hcrlf.trans hocc)
  obtain rfl : m = n := Option.some.inj (hfirst.symm.trans hn)
  refine ⟨p - m, ?_⟩
  rwa [crlf_append_drop hn, List.drop_drop, Nat.add_sub_cancel' hm]

end BlankAhead

theorem exists_findCRLF {b : Bytes} {p : ℕ} (hp : Buffer.findCRLFCRLF b = some p) :
    ∃ n, Buffer.findCRLF b = some n := by
  obtain ⟨hocc, -⟩ := (search_eq_some_iff crlfcrlf_ne_nil).mp hp
  have hcrlf : crlf <+: crlfcrlf := ⟨crlf, rfl⟩
  obtain ⟨n, -, hn⟩ := exists_search_le crlf_ne_nil (hcrlf.trans hocc)
  exact ⟨n, hn⟩

namespace HttpContext

/-- The header lines before a blank line lead to a complete request. -/
theorem run_headers_of_blankAhead {c : HttpContext} {b : Bytes} (hc : c.state = .kExpectHeaders)
    (hb : BlankAhead b) : ∃ c' rest o, machine.run c b = .ok (c', rest, o) ∧ c'.gotAll = true := by
  induction hlen : b.length using Nat.strong_induction_on generalizing c b with
  | _ k ih =>
    obtain ⟨n, hn⟩ := hb.findCRLF
    have hlt := length_drop_lt hn
    have ht : machine.tick c b = _ := tick_headers hc hn
    rw [machine.run_of_tick ht]
    rcases afterHeader_cases c (b.take n) hc with ⟨hmem, hstate⟩ | ⟨-, hstate⟩
    · obtain ⟨c', rest, o, hrun, hall⟩ :=
        ih _ (hlen ▸ hlt) hstate (hb.drop_line hn (List.ne_nil_of_mem hmem)) rfl
      rw [hrun]
      exact ⟨c', rest, _, rfl, hall⟩
    · rw [machine.run_of_wait (tick_of_gotAll (by rw [hstate]))]
      exact ⟨_, _, _, rfl, by rw [hstate]; rfl⟩

/-- A new context refuses a buffer that has a blank line, or finds a complete request in it. -/
theorem parseRequest_create_cases {b : Bytes} {p : ℕ} (hp : Buffer.findCRLFCRLF b = some p) :
    (∃ c rest, create.parseRequest b = .ok (true, c, rest) ∧ c.gotAll = true) ∨
      ∃ c rest, create.parseRequest b = .ok (false, c, rest) := by
  obtain ⟨n, hn⟩ := exists_findCRLF hp
  rw [parseRequest_eq create_reading]
  obtain ⟨r, ht⟩ | ⟨r, ht⟩ := tick_create hn
  · rw [machine.run_of_error ht]
    exact .inr ⟨_, _, rfl⟩
  · obtain ⟨c', rest, o, hrun, hall⟩ :=
      run_headers_of_blankAhead (c := ⟨.kExpectHeaders, r⟩) rfl (.of_findCRLFCRLF hp hn)
    rw [machine.run_of_tick ht, hrun]
    exact .inl ⟨c', rest, rfl, hall⟩

end HttpContext

end LibWebsocket.Http

import LibWebsocket.Http.Parse
import LibWebsocket.Lib.Consumer

/-! The request parser as a machine that takes one line a tick. It stops where the code does, so
a request may be cut anywhere, and what follows a complete request is left alone. -/
namespace LibWebsocket.Http
open Lib

/-- Why the machine stops without a request. -/
inductive Stop
  | failed (f : Failure)
  | rejected (r : HttpRequest)

namespace HttpContext

/-- The states in which a line is read. -/
def Reading (c : HttpContext) : Prop :=
  c.state = .kExpectRequestLine ∨ c.state = .kExpectHeaders

def tickRequestLine (c : HttpContext) (b : Bytes) (n : ℕ) :
    Except Stop (Option (Consumer.Rest HttpContext UInt8 Unit)) :=
  match processRequestLine c.request (b.take n) with
  | .ok (true, r) => .ok (some (⟨.kExpectHeaders, r⟩, b.drop (n + 2), []))
  | .ok (false, r) => .error (.rejected r)
  | .error f => .error (.failed f)

/-- The context behind a header line. -/
def afterHeader (c : HttpContext) (line : Bytes) : HttpContext :=
  match cut 58 line with
  | some (field, value) => { c with request := c.request.addHeader field value }
  | none => { c with state := .kGotAll }

def tick (c : HttpContext) (b : Bytes) :
    Except Stop (Option (Consumer.Rest HttpContext UInt8 Unit)) :=
  match c.state, Buffer.findCRLF b with
  | .kExpectRequestLine, some n => tickRequestLine c b n
  | .kExpectHeaders, some n => .ok (some (c.afterHeader (b.take n), b.drop (n + 2), []))
  | _, _ => .ok none

theorem length_drop_lt {b : Bytes} {n : ℕ} (h : Buffer.findCRLF b = some n) :
    (b.drop (n + 2)).length < b.length := by
  have hle := search_le crlf_ne_nil h
  have hlen : crlf.length = 2 := rfl
  rw [List.length_drop]
  omega

theorem tick_requestLine {c : HttpContext} {b : Bytes} {n : ℕ}
    (hc : c.state = .kExpectRequestLine) (hn : Buffer.findCRLF b = some n) :
    tick c b = tickRequestLine c b n := by
  simp only [tick, hc, hn]

theorem tick_headers {c : HttpContext} {b : Bytes} {n : ℕ}
    (hc : c.state = .kExpectHeaders) (hn : Buffer.findCRLF b = some n) :
    tick c b = .ok (some (c.afterHeader (b.take n), b.drop (n + 2), [])) := by
  simp only [tick, hc, hn]

theorem tick_of_none {c : HttpContext} {b : Bytes} (hn : Buffer.findCRLF b = none) :
    tick c b = .ok none := by
  simp only [tick, hn]
  cases c.state <;> rfl

theorem tick_of_not_reading {c : HttpContext} {b : Bytes} (hc : ¬ c.Reading) :
    tick c b = .ok none := by
  unfold tick
  unfold Reading at hc
  cases hs : c.state <;> simp_all

/-- A tick that does anything takes the first line. -/
theorem tick_cases {c : HttpContext} {b : Bytes} (h : tick c b ≠ .ok none) :
    ∃ n, Buffer.findCRLF b = some n ∧ (c.state = .kExpectRequestLine ∧
        tick c b = tickRequestLine c b n ∨
      c.state = .kExpectHeaders ∧
        tick c b = .ok (some (c.afterHeader (b.take n), b.drop (n + 2), []))) := by
  cases hn : Buffer.findCRLF b with
  | none => exact absurd (tick_of_none hn) h
  | some n =>
    by_cases hc : c.Reading
    · rcases hc with hc | hc
      · exact ⟨n, rfl, .inl ⟨hc, tick_requestLine hc hn⟩⟩
      · exact ⟨n, rfl, .inr ⟨hc, tick_headers hc hn⟩⟩
    · exact absurd (tick_of_not_reading hc) h

theorem tickRequestLine_eq_some {c c' : HttpContext} {b b' : Bytes} {n : ℕ} {o : List Unit}
    (h : tickRequestLine c b n = .ok (some (c', b', o))) :
    b' = b.drop (n + 2) ∧ c'.state = .kExpectHeaders ∧ o = [] := by
  unfold tickRequestLine at h
  split at h <;> cases h
  exact ⟨rfl, rfl, rfl⟩

theorem tick_drop {c c' : HttpContext} {b b' : Bytes} {o : List Unit}
    (h : tick c b = .ok (some (c', b', o))) :
    ∃ n, Buffer.findCRLF b = some n ∧ b' = b.drop (n + 2) ∧ o = [] := by
  obtain ⟨n, hn, ⟨-, ht⟩ | ⟨-, ht⟩⟩ := tick_cases (by rw [h]; simp)
  · rw [ht] at h
    obtain ⟨hb, -, ho⟩ := tickRequestLine_eq_some h
    exact ⟨n, hn, hb, ho⟩
  · rw [ht] at h
    cases h
    exact ⟨n, hn, rfl, rfl⟩

def machine : Consumer HttpContext UInt8 Unit Stop where
  tick := tick
  size _ b := b.length
  tick_size h := by
    obtain ⟨n, hn, rfl, -⟩ := tick_drop h
    exact length_drop_lt hn

@[simp] theorem machine_tick : machine.tick = tick := rfl

theorem tickRequestLine_append (c : HttpContext) {b : Bytes} (x : Bytes) {n : ℕ}
    (hn : n + 2 ≤ b.length) :
    tickRequestLine c (b ++ x) n =
      (tickRequestLine c b n).map (Option.map fun r => (r.1, r.2.1 ++ x, r.2.2)) := by
  unfold tickRequestLine
  rw [List.take_append_of_le_length (by omega), List.drop_append_of_le_length hn]
  split <;> rfl

/-- What follows a line has no effect on its tick. -/
theorem tick_append {c : HttpContext} {b x : Bytes} (h : tick c b ≠ .ok none) :
    tick c (b ++ x) = (tick c b).map (Option.map fun r => (r.1, r.2.1 ++ x, r.2.2)) := by
  obtain ⟨n, hn, hcase⟩ := tick_cases h
  have hle : n + 2 ≤ b.length := search_le crlf_ne_nil hn
  have hx : Buffer.findCRLF (b ++ x) = some n := search_append crlf_ne_nil hn
  rcases hcase with ⟨hc, ht⟩ | ⟨hc, ht⟩
  · rw [ht, tick_requestLine hc hx, tickRequestLine_append c x hle]
  · rw [ht, tick_headers hc hx, List.take_append_of_le_length (by omega),
      List.drop_append_of_le_length hle]
    rfl

theorem machine_stable : machine.Stable fun _ _ => True :=
  .of_tick_append (fun _ => trivial) (fun _ _ => trivial) fun _ h => tick_append h

/-- The result of the code, as the machine's run on the buffer `b` gives it. -/
def outcome (b : Bytes) :
    Except Stop (Consumer.Rest HttpContext UInt8 Unit) → Except Failure (Bool × HttpContext × Bytes)
  | .ok (c, b', _) => .ok (true, c, b')
  | .error (.rejected r) => .ok (false, ⟨.kExpectRequestLine, r⟩, b)
  | .error (.failed f) => .error f

theorem afterHeader_cases (c : HttpContext) (line : Bytes) (hc : c.state = .kExpectHeaders) :
    58 ∈ line ∧ (c.afterHeader line).state = .kExpectHeaders ∨
      58 ∉ line ∧ c.afterHeader line = { c with state := .kGotAll } := by
  unfold afterHeader
  cases h : cut 58 line with
  | none => exact .inr ⟨cut_eq_none_iff.mp h, rfl⟩
  | some p =>
    obtain ⟨hl, -⟩ := cut_eq_some h
    exact .inl ⟨by simp [hl], hc⟩

theorem parseRound_headers {c : HttpContext} {b : Bytes} {n : ℕ}
    (hc : c.state = .kExpectHeaders) (hn : Buffer.findCRLF b = some n) :
    parseRound c b = .ok ⟨58 ∈ b.take n, true, c.afterHeader (b.take n), b.drop (n + 2)⟩ := by
  unfold parseRound afterHeader
  simp only [hc, hn]
  cases h : cut 58 (b.take n) with
  | none => simp [cut_eq_none_iff.mp h]
  | some p =>
    obtain ⟨hl, -⟩ := cut_eq_some h
    have hmem : (58 : UInt8) ∈ b.take n := by rw [hl]; simp
    simp [hmem]

theorem parseRound_none {c : HttpContext} {b : Bytes} (hc : c.Reading)
    (hn : Buffer.findCRLF b = none) : parseRound c b = .ok ⟨false, true, c, b⟩ := by
  unfold parseRound
  rcases hc with hc | hc <;> simp only [hc, hn]

/-- Behind the request line nothing is refused, and the loop is the machine. -/
theorem parseLoop_headers {c : HttpContext} {b : Bytes} (fuel : ℕ)
    (hc : c.state = .kExpectHeaders) (hfuel : b.length < fuel) :
    ∃ c' b' o, machine.run c b = .ok (c', b', o) ∧ parseLoop fuel c b = .ok (true, c', b') := by
  induction fuel generalizing c b with
  | zero => omega
  | succ fuel ih =>
    cases hn : Buffer.findCRLF b with
    | none =>
      refine ⟨c, b, [], machine.run_of_wait (tick_of_none hn), ?_⟩
      rw [parseLoop, parseRound_none (.inr hc) hn]
      rfl
    | some n =>
      have ht := tick_headers hc hn
      have hlt := length_drop_lt hn
      rcases afterHeader_cases c (b.take n) hc with ⟨hmem, hstate⟩ | ⟨hmem, hstate⟩
      · obtain ⟨c', b', o, hrun, hloop⟩ := ih (b := b.drop (n + 2)) hstate (by omega)
        refine ⟨c', b', o, ?_, ?_⟩
        · rw [machine.run_of_tick ht, hrun]
          rfl
        · rw [parseLoop, parseRound_headers hc hn]
          simpa [hmem, Bind.bind, Except.bind] using hloop
      · have hwait : tick (c.afterHeader (b.take n)) (b.drop (n + 2)) = .ok none := by
          rw [hstate]
          exact tick_of_not_reading (by simp [Reading])
        refine ⟨c.afterHeader (b.take n), b.drop (n + 2), [], ?_, ?_⟩
        · rw [machine.run_of_tick ht, machine.run_of_wait hwait]
          rfl
        · rw [parseLoop, parseRound_headers hc hn]
          simp [hmem, Bind.bind, Except.bind, Pure.pure, Except.pure]

/-- In a state that reads lines the loop returns what the machine's run gives. -/
theorem parseRequest_eq {c : HttpContext} (hc : c.Reading) (b : Bytes) :
    parseRequest c b = outcome b (machine.run c b) := by
  rcases hc with hc | hc
  · cases hn : Buffer.findCRLF b with
    | none =>
      rw [machine.run_of_wait (tick_of_none hn), parseRequest, loopFuel, parseLoop,
        parseRound_none (.inl hc) hn]
      rfl
    | some n =>
      have ht := tick_requestLine hc hn
      have hlt := length_drop_lt hn
      rw [parseRequest, loopFuel, parseLoop]
      unfold tickRequestLine at ht
      simp only [parseRound, hc, hn]
      rcases hp : processRequestLine c.request (b.take n) with f | ⟨ok, r⟩
      · rw [machine.run_of_error (e := .failed f) (by rw [machine_tick, ht, hp])]
        rfl
      · cases ok with
        | false =>
          rw [machine.run_of_error (e := .rejected r) (by rw [machine_tick, ht, hp])]
          rfl
        | true =>
          obtain ⟨c', b', o, hrun, hloop⟩ := parseLoop_headers (c := ⟨.kExpectHeaders, r⟩)
            (b := b.drop (n + 2)) b.length rfl hlt
          rw [machine.run_of_tick (o := []) (by rw [machine_tick, ht, hp]), hrun]
          simpa [Bind.bind, Except.bind, Pure.pure, Except.pure, outcome, Except.map,
            Consumer.Rest.after] using hloop
  · obtain ⟨c', b', o, hrun, hloop⟩ := parseLoop_headers (b := b) (loopFuel b) hc
      (Nat.lt_succ_self _)
    rw [parseRequest, hloop, hrun]
    rfl

theorem processRequestLine_length {r r' : HttpRequest} {line : Bytes}
    (h : processRequestLine r line = .ok (true, r')) : 8 ≤ line.length := by
  unfold processRequestLine at h
  split at h
  · cases h
  · rename_i m rest hm
    obtain ⟨rfl, -⟩ := cut_eq_some hm
    rcases hset : r.setMethod m with f | ⟨valid, r₁⟩
    · rw [hset] at h
      cases h
    · rw [hset] at h
      simp only [Bind.bind, Except.bind, Pure.pure, Except.pure] at h
      split at h
      · split at h
        · cases h
        · rename_i target v hv
          obtain ⟨rfl, -⟩ := cut_eq_some hv
          have hlen : v.length = 8 := by
            unfold versionOf at h
            by_contra hlen
            simp [hlen] at h
          simp only [List.length_append, List.length_cons]
          omega
      · cases h

end HttpContext

/-- The lines of a buffer that have their line break. -/
def linesAux : ℕ → Bytes → List Bytes
  | 0, _ => []
  | fuel + 1, b =>
    match Buffer.findCRLF b with
    | some n => b.take n :: linesAux fuel (b.drop (n + 2))
    | none => []

def lines (b : Bytes) : List Bytes := linesAux b.length b

theorem linesAux_eq {fuel : ℕ} {b : Bytes} (h : b.length ≤ fuel) : linesAux fuel b = lines b := by
  induction fuel using Nat.strong_induction_on generalizing b with
  | _ fuel ih =>
    cases hn : Buffer.findCRLF b with
    | none => cases fuel <;> cases hb : b.length <;> simp [lines, linesAux, hb, hn]
    | some n =>
      have hlt := HttpContext.length_drop_lt hn
      obtain ⟨fuel, rfl⟩ : ∃ k, fuel = k + 1 := ⟨fuel - 1, by omega⟩
      obtain ⟨k, hk⟩ : ∃ k, b.length = k + 1 := ⟨b.length - 1, by omega⟩
      rw [lines, hk, linesAux, linesAux, hn]
      simp only [List.cons.injEq, true_and]
      rw [ih fuel (by omega) (by omega), ih k (by omega) (by omega)]

theorem lines_of_some {b : Bytes} {n : ℕ} (hn : Buffer.findCRLF b = some n) :
    lines b = b.take n :: lines (b.drop (n + 2)) := by
  have hlt := HttpContext.length_drop_lt hn
  obtain ⟨k, hk⟩ : ∃ k, b.length = k + 1 := ⟨b.length - 1, by omega⟩
  rw [lines, hk, linesAux, hn]
  simp only [List.cons.injEq, true_and]
  exact linesAux_eq (by omega)

/-- Every line behind the request line that is not empty has a colon. -/
def HeaderLines (r : Bytes) : Prop := ∀ l ∈ (lines r).tail, l ≠ [] → 58 ∈ l

instance (r : Bytes) : Decidable (HeaderLines r) :=
  inferInstanceAs (Decidable (∀ l ∈ (lines r).tail, l ≠ [] → 58 ∈ l))

namespace HttpContext

theorem run_headers_gotAll {c c' : HttpContext} {b rest : Bytes} {o : List Unit}
    (hc : c.state = .kExpectHeaders) (hrun : machine.run c b = .ok (c', rest, o))
    (hall : c'.gotAll = true) : ∃ n, Buffer.findCRLF b = some n := by
  cases hn : Buffer.findCRLF b with
  | some n => exact ⟨n, rfl⟩
  | none =>
    rw [machine.run_of_wait (tick_of_none hn)] at hrun
    cases hrun
    simp [gotAll, hc] at hall

/-- A line that is not empty does not end a section that ends in an empty line. -/
theorem drop_line_ne_nil {b : Bytes} {n : ℕ} (hend : EndsOnce crlfcrlf (crlf ++ b))
    (hn : Buffer.findCRLF b = some n) (hline : b.take n ≠ []) : b.drop (n + 2) ≠ [] := by
  intro hnil
  have hsplit : b = b.take n ++ crlf ++ b.drop (n + 2) := search_split crlf_ne_nil hn
  obtain ⟨-, hmin⟩ := (search_eq_some_iff crlf_ne_nil).mp hn
  have hle : n + crlf.length ≤ b.length := search_le crlf_ne_nil hn
  have hpos := List.length_pos_of_ne_nil hline
  have h2 : crlf.length = 2 := rfl
  have h4 : crlfcrlf.length = 4 := rfl
  obtain ⟨p, hp, hlen⟩ := hend
  obtain ⟨⟨t, ht⟩, -⟩ := (search_eq_some_iff crlfcrlf_ne_nil).mp hp
  rw [hnil, List.append_nil] at hsplit
  have hb := congrArg List.length hsplit
  simp only [List.length_append, List.length_take] at hb hlen hpos
  obtain rfl : p = n := by omega
  -- the first of the two line breaks lies in the line itself, or starts at its line feed
  rcases Nat.lt_or_ge p 2 with h | h
  · obtain rfl : p = 1 := by omega
    cases ht
  · refine hmin (p - 2) (by omega) ⟨crlf ++ t, ?_⟩
    rw [List.drop_append, List.drop_eq_nil_of_le (by omega), h2] at ht
    exact ht

/-- In a section that ends in its only empty line, exactly that line has nothing behind it. -/
theorem drop_line_eq_nil_iff {b : Bytes} {n : ℕ} (hend : EndsOnce crlfcrlf (crlf ++ b))
    (hn : Buffer.findCRLF b = some n) : b.drop (n + 2) = [] ↔ b.take n = [] := by
  constructor
  · intro hnil
    by_contra hline
    exact drop_line_ne_nil hend hn hline hnil
  · intro hline
    have hsplit : b = b.take n ++ crlf ++ b.drop (n + 2) := search_split crlf_ne_nil hn
    rw [hline, List.nil_append] at hsplit
    have hfirst : search crlfcrlf (crlf ++ b) = some 0 := by
      rw [search_eq_some_iff crlfcrlf_ne_nil]
      refine ⟨⟨b.drop (n + 2), ?_⟩, by simp⟩
      nth_rewrite 2 [hsplit]
      rfl
    obtain ⟨p, hp, hlen⟩ := hend
    rw [hfirst] at hp
    cases hp
    have hsum := congrArg List.length hsplit
    have h2 : crlf.length = 2 := rfl
    have h4 : crlfcrlf.length = 4 := rfl
    simp only [List.length_append] at hsum hlen
    exact List.eq_nil_of_length_eq_zero (by omega)

/-- Behind a line that another one follows, the section ends as before. -/
theorem endsOnce_drop_line {x b : Bytes} {n m : ℕ} (hend : EndsOnce crlfcrlf (x ++ b))
    (hn : Buffer.findCRLF b = some n) (hm : Buffer.findCRLF (b.drop (n + 2)) = some m) :
    EndsOnce crlfcrlf (crlf ++ b.drop (n + 2)) := by
  have hsplit : b = b.take n ++ crlf ++ b.drop (n + 2) := search_split crlf_ne_nil hn
  have htwo : m + crlf.length ≤ (b.drop (n + 2)).length := search_le crlf_ne_nil hm
  refine EndsOnce.suffix (x := x ++ b.take n) crlfcrlf_ne_nil ?_ ?_
  · rwa [List.append_assoc, ← List.append_assoc (b.take n), ← hsplit]
  · -- the line break in front of the rest and a further one in it are four bytes
    rw [List.length_append]
    exact Nat.add_le_add_left (Nat.le_trans (Nat.le_add_left _ _) htwo) 2

/-- In a section that ends in its only empty line the parser reads to the end exactly if no line
without a colon stops it before. -/
theorem run_headers_rest {c c' : HttpContext} {b rest : Bytes} {o : List Unit}
    (hc : c.state = .kExpectHeaders) (hend : EndsOnce crlfcrlf (crlf ++ b))
    (hrun : machine.run c b = .ok (c', rest, o)) (hall : c'.gotAll = true) :
    rest = [] ↔ ∀ l ∈ lines b, l ≠ [] → 58 ∈ l := by
  induction hlen : b.length using Nat.strong_induction_on generalizing c b o with
  | _ k ih =>
    obtain ⟨n, hn⟩ := run_headers_gotAll hc hrun hall
    have hlt := length_drop_lt hn
    obtain ⟨o₁, hrest, -⟩ := machine.run_eq_ok_of_tick (tick_headers hc hn) hrun
    rw [lines_of_some hn, List.forall_mem_cons]
    rcases afterHeader_cases c (b.take n) hc with ⟨hmem, hstate⟩ | ⟨hmem, hstate⟩
    · obtain ⟨m, hm⟩ := run_headers_gotAll hstate hrest hall
      rw [ih _ (hlen ▸ hlt) hstate (endsOnce_drop_line hend hn hm) hrest rfl]
      simp [hmem]
    · have hwait : tick (c.afterHeader (b.take n)) (b.drop (n + 2)) = .ok none := by
        rw [hstate]
        exact tick_of_not_reading (by simp [Reading])
      rw [machine.run_of_wait hwait] at hrest
      cases hrest
      rw [drop_line_eq_nil_iff hend hn]
      constructor
      · intro hzero
        rw [(drop_line_eq_nil_iff hend hn).mpr hzero]
        simp [hzero, lines, linesAux]
      · rintro ⟨h, -⟩
        by_contra hline
        exact hmem (h hline)

theorem create_reading : create.Reading := .inl rfl

theorem parseRequest_true_iff {c c' : HttpContext} {b rest : Bytes} (hc : c.Reading) :
    c.parseRequest b = .ok (true, c', rest) ↔ ∃ o, machine.run c b = .ok (c', rest, o) := by
  rw [parseRequest_eq hc]
  rcases machine.run c b with (f | r) | ⟨c₁, b₁, o⟩
  · simp [outcome]
  · simp [outcome]
  · simp [outcome]

/-- What follows a complete request stays behind it. -/
theorem parseRequest_append {c c' : HttpContext} {b rest : Bytes} (hc : c.Reading)
    (h : c.parseRequest b = .ok (true, c', rest)) (hall : c'.gotAll = true) (x : Bytes) :
    c.parseRequest (b ++ x) = .ok (true, c', rest ++ x) := by
  obtain ⟨o, hrun⟩ := (parseRequest_true_iff hc).mp h
  have hwait : tick c' (rest ++ x) = .ok none := by
    apply tick_of_not_reading
    rw [gotAll, decide_eq_true_iff] at hall
    simp [Reading, hall]
  refine (parseRequest_true_iff hc).mpr ⟨o, ?_⟩
  rw [machine_stable.run_append c b x trivial, hrun]
  simp only [Except.bind]
  rw [machine.run_of_wait hwait]
  simp [Except.map, Consumer.Rest.after]

/-- The first line of a request that is accepted is its request line. -/
theorem run_create_gotAll {c : HttpContext} {r rest : Bytes} {o : List Unit}
    (hrun : machine.run create r = .ok (c, rest, o)) (hall : c.gotAll = true) :
    ∃ n req o', Buffer.findCRLF r = some n ∧ 8 ≤ n ∧
      machine.run ⟨.kExpectHeaders, req⟩ (r.drop (n + 2)) = .ok (c, rest, o') := by
  cases hn : Buffer.findCRLF r with
  | none =>
    rw [machine.run_of_wait (tick_of_none hn)] at hrun
    cases hrun
    simp [gotAll, create] at hall
  | some n =>
    have ht : machine.tick create r = tickRequestLine create r n := tick_requestLine rfl hn
    rcases hp : processRequestLine create.request (r.take n) with f | ⟨ok, req⟩
    · rw [machine.run_of_error (e := .failed f) (by rw [ht, tickRequestLine, hp])] at hrun
      cases hrun
    · cases ok with
      | false =>
        rw [machine.run_of_error (e := .rejected req) (by rw [ht, tickRequestLine, hp])] at hrun
        cases hrun
      | true =>
        have hlen := processRequestLine_length hp
        have hle : n + 2 ≤ r.length := search_le crlf_ne_nil hn
        rw [List.length_take] at hlen
        rw [tickRequestLine, hp] at ht
        obtain ⟨o₁, hrest, -⟩ := machine.run_eq_ok_of_tick ht hrun
        exact ⟨n, req, o₁, rfl, by omega, hrest⟩

theorem length_of_gotAll {c : HttpContext} {r rest : Bytes}
    (h : create.parseRequest r = .ok (true, c, rest)) (hall : c.gotAll = true) :
    10 ≤ r.length := by
  obtain ⟨o, hrun⟩ := (parseRequest_true_iff create_reading).mp h
  obtain ⟨n, req, o', hn, hlen, -⟩ := run_create_gotAll hrun hall
  have hle : n + crlf.length ≤ r.length := search_le crlf_ne_nil hn
  have h2 : crlf.length = 2 := rfl
  omega

/-- The three notions of the end of a request agree exactly if every header line has a colon. -/
theorem parseRequest_rest_eq_nil_iff {c : HttpContext} {r rest : Bytes}
    (hend : EndsOnce crlfcrlf r) (h : create.parseRequest r = .ok (true, c, rest))
    (hall : c.gotAll = true) : rest = [] ↔ HeaderLines r := by
  obtain ⟨o, hrun⟩ := (parseRequest_true_iff create_reading).mp h
  obtain ⟨n, req, o', hn, -, hrest⟩ := run_create_gotAll hrun hall
  obtain ⟨m, hm⟩ := run_headers_gotAll rfl hrest hall
  have hend' := endsOnce_drop_line (x := []) hend hn hm
  rw [run_headers_rest rfl hend' hrest hall, HeaderLines, lines_of_some hn, List.tail_cons]

/-- The assertion of `setMethod` holds for the first line of a new context. -/
theorem processRequestLine_create (line : Bytes) :
    ∃ ok r, processRequestLine .create line = .ok (ok, r) := by
  unfold processRequestLine
  split
  · exact ⟨_, _, rfl⟩
  · rename_i m rest hm
    have hset : HttpRequest.create.setMethod m = .ok (HttpRequest.methodOf m ≠ .kInvalid,
      { HttpRequest.create with method := HttpRequest.methodOf m }) := rfl
    rw [hset]
    simp only [Bind.bind, Except.bind]
    split_ifs
    · split
      · exact ⟨_, _, rfl⟩
      · split
        · exact ⟨_, _, rfl⟩
        · exact ⟨_, _, rfl⟩
    · exact ⟨_, _, rfl⟩

/-- A new context refuses its first line or goes on to the headers. -/
theorem tick_create {b : Bytes} {n : ℕ} (hn : Buffer.findCRLF b = some n) :
    (∃ r, machine.tick create b = .error (.rejected r)) ∨
      ∃ r, machine.tick create b = .ok (some (⟨.kExpectHeaders, r⟩, b.drop (n + 2), [])) := by
  obtain ⟨ok, r, hline⟩ := processRequestLine_create (b.take n)
  have ht : machine.tick create b = tickRequestLine create b n := tick_requestLine rfl hn
  have hcreate : create.request = .create := rfl
  rw [ht, tickRequestLine, hcreate, hline]
  cases ok with
  | false => exact .inl ⟨r, rfl⟩
  | true => exact .inr ⟨r, rfl⟩

/-- On a new context the loop returns, whatever the buffer. -/
theorem parseRequest_create_isOk (b : Bytes) : ∃ r, create.parseRequest b = .ok r := by
  rw [parseRequest_eq create_reading]
  cases hn : Buffer.findCRLF b with
  | none =>
    rw [machine.run_of_wait (tick_of_none hn)]
    exact ⟨_, rfl⟩
  | some n =>
    obtain ⟨r, ht⟩ | ⟨r, ht⟩ := tick_create hn
    · rw [machine.run_of_error ht]
      exact ⟨_, rfl⟩
    · obtain ⟨c', b', o, hrun, -⟩ := parseLoop_headers (c := ⟨.kExpectHeaders, r⟩)
        (b := b.drop (n + 2)) _ rfl (Nat.lt_succ_self _)
      rw [machine.run_of_tick ht, hrun]
      exact ⟨_, rfl⟩

/-- Behind a complete request nothing stops the loop. -/
theorem parseLoop_of_gotAll {c : HttpContext} (hc : c.state = .kGotAll) (fuel : ℕ) (b : Bytes) :
    parseLoop fuel c b = .error .diverged := by
  have hround : parseRound c b = .ok ⟨true, true, c, b⟩ := by
    unfold parseRound
    rw [hc]
  induction fuel with
  | zero => rfl
  | succ fuel ih =>
    rw [parseLoop, hround]
    exact ih

theorem tick_of_gotAll {c : HttpContext} {b : Bytes} (hc : c.state = .kGotAll) :
    tick c b = .ok none :=
  tick_of_not_reading (by simp [Reading, hc])

end HttpContext

end LibWebsocket.Http

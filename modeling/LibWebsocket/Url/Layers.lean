import LibWebsocket.Url.Passes

/-! `MultipleEncode` applied any number of times is undone by `MultipleDecode`: one pass takes two
layers off each escape. -/
namespace LibWebsocket.Url
open Lib Http

/-- No character of the string is white space. -/
def NoSpace (s : Bytes) : Prop := ∀ c ∈ s, ¬ HttpRequest.isspace c

section Byte

theorem strToBin_toHex : ∀ c : UInt8, strToBin (toHex (c >>> 4)) (toHex (c % 16)) = c :=
  forall_byte (by decide +kernel)

theorem isalnum_toHex : ∀ c : UInt8, isalnum (toHex (c >>> 4)) ∧ isalnum (toHex (c % 16)) :=
  forall_byte (by decide +kernel)

theorem noSpace_encodeByte : ∀ c, (encodeByte c).all fun d => ¬ HttpRequest.isspace d :=
  forall_byte (by decide +kernel)

variable {c : UInt8}

theorem ne_of_isalnum (h : isalnum c) : c ≠ 37 ∧ c ≠ 43 := by
  constructor
  · rintro rfl
    revert h
    decide
  · rintro rfl
    revert h
    decide

theorem encodeByte_of_isalnum (h : isalnum c) : encodeByte c = [c] := if_pos h

theorem encodeByte_of_not (h : ¬ isalnum c) (hspace : ¬ HttpRequest.isspace c) :
    encodeByte c = [37, toHex (c >>> 4), toHex (c % 16)] := by
  rw [encodeByte, if_neg h, if_neg hspace]

/-- One layer. -/
theorem exists_single (hspace : ¬ HttpRequest.isspace c) (hc : c ≠ 37) :
    ∃ p : Piece, p.text = encodeByte c ∧ p.value = c ∧ p.again = false := by
  by_cases h : isalnum c
  · exact ⟨.plain c (ne_of_isalnum h), (encodeByte_of_isalnum h).symm, rfl, rfl⟩
  · have hvalue := strToBin_toHex c
    have hne : strToBin (toHex (c >>> 4)) (toHex (c % 16)) ≠ 37 := by rwa [hvalue]
    exact ⟨.escape _ _ hne, (encodeByte_of_not h hspace).symm, hvalue, rfl⟩

/-- Two layers; a `%` asks for another pass. -/
theorem exists_double (hspace : ¬ HttpRequest.isspace c) :
    ∃ p : Piece, p.text = multipleEncode (encodeByte c) ∧ p.value = c ∧
      p.again = decide (c = 37) := by
  by_cases h : isalnum c
  · refine ⟨.plain c (ne_of_isalnum h), ?_, rfl, ?_⟩
    · rw [encodeByte_of_isalnum h, multipleEncode, List.flatMap_singleton,
        encodeByte_of_isalnum h]
      rfl
    · simp [Piece.again, (ne_of_isalnum h).1]
  · have hvalue := strToBin_toHex c
    obtain ⟨hhigh, hlow⟩ := isalnum_toHex c
    have hpercent : encodeByte 37 = [37, 50, 53] := by decide
    refine ⟨.double (toHex (c >>> 4)) (toHex (c % 16)), ?_, hvalue, ?_⟩
    · rw [encodeByte_of_not h hspace, multipleEncode]
      simp only [List.flatMap_cons, List.flatMap_nil, hpercent, encodeByte_of_isalnum hhigh,
        encodeByte_of_isalnum hlow]
      rfl
    · simp [Piece.again, hvalue]

end Byte

section Pass
variable {s : Bytes} {f : UInt8 → Bytes} {again : UInt8 → Bool}

/-- A string of which each character is written as one piece. -/
theorem decodePass_pieces
    (h : ∀ c ∈ s, ∃ p : Piece, p.text = f c ∧ p.value = c ∧ p.again = again c) :
    (decodePass (s.flatMap f)).result = s ∧ (decodePass (s.flatMap f)).ret = s.any again := by
  have hpieces : ∃ ps : List Piece,
      ps.flatMap Piece.text = s.flatMap f ∧ ps.map Piece.value = s ∧
        ps.any Piece.again = s.any again := by
    induction s with
    | nil => exact ⟨[], rfl, rfl, rfl⟩
    | cons c s ih =>
      rw [List.forall_mem_cons] at h
      obtain ⟨p, htext, hvalue, hagain⟩ := h.1
      obtain ⟨ps, htexts, hvalues, hagains⟩ := ih h.2
      exact ⟨p :: ps, by simp [htext, htexts], by simp [hvalue, hvalues],
        by simp [hagain, hagains]⟩
  obtain ⟨ps, htext, hvalue, hagain⟩ := hpieces
  rw [← htext, decodePass_flatMap]
  exact ⟨hvalue, hagain⟩

/-- Without a request for another pass the first one gives the result. -/
theorem multipleDecode_of_not_ret (h : ¬ (decodePass s).ret) :
    multipleDecode s = (decodePass s).result := by
  rw [multipleDecode, decode2, if_neg h, Option.getD_some]

/-- Otherwise decoding goes on with what it gave. -/
theorem multipleDecode_of_ret (h : (decodePass s).ret) :
    multipleDecode s = multipleDecode (decodePass s).result := by
  have hlen := length_result_add_four_le h
  obtain ⟨result, hresult⟩ := decodeAgain_terminates (decodePass s).result
  have hs : decode2 s.length s = some result := by
    rw [decode2, if_pos h]
    exact hresult _ (by omega)
  have hnext : decode2 (decodePass s).result.length (decodePass s).result = some result :=
    hresult _ (Nat.lt_succ_self _)
  rw [multipleDecode, multipleDecode, hs, hnext]

end Pass

section Layers
variable {s : Bytes} {n : ℕ}

theorem noSpace_multipleEncode (s : Bytes) : NoSpace (multipleEncode s) := by
  intro d hd
  obtain ⟨c, -, hdc⟩ := List.mem_flatMap.mp hd
  simpa using List.all_eq_true.mp (noSpace_encodeByte c) d hdc

theorem noSpace_iterate (hs : NoSpace s) : NoSpace (multipleEncode^[n] s) := by
  cases n with
  | zero => exact hs
  | succ n =>
    rw [Function.iterate_succ_apply']
    exact noSpace_multipleEncode _

/-- Two layers are taken off by one pass. -/
theorem decodePass_twice (hs : NoSpace s) :
    (decodePass (multipleEncode (multipleEncode s))).result = s ∧
      ((decodePass (multipleEncode (multipleEncode s))).ret ↔ 37 ∈ s) := by
  have htwice : multipleEncode (multipleEncode s) =
      s.flatMap fun c => multipleEncode (encodeByte c) := by
    simp only [multipleEncode, List.flatMap_assoc]
  obtain ⟨hresult, hret⟩ := decodePass_pieces fun c hc => exists_double (hs c hc)
  rw [htwice, hresult, hret]
  simp

theorem percent_mem_encodeByte {c : UInt8} (h : ¬ isalnum c) (hspace : ¬ HttpRequest.isspace c) :
    37 ∈ encodeByte c := by
  rw [encodeByte_of_not h hspace]
  exact List.mem_cons_self

/-- A string that is not escaped is not changed at all. -/
theorem multipleEncode_eq_self (hs : NoSpace s) (h : 37 ∉ multipleEncode s) :
    multipleEncode s = s := by
  have halnum : ∀ c ∈ s, encodeByte c = [c] := fun c hc => by
    by_contra hne
    have hnot : ¬ isalnum c := fun ha => hne (encodeByte_of_isalnum ha)
    exact h (List.mem_flatMap.mpr ⟨c, hc, percent_mem_encodeByte hnot (hs c hc)⟩)
  rw [multipleEncode, List.flatMap_congr halnum, List.flatMap_singleton']

theorem iterate_eq_self (hs : NoSpace s) (h : 37 ∉ multipleEncode^[n] s) :
    multipleEncode^[n] s = s := by
  induction n with
  | zero => rfl
  | succ n ih =>
    rw [Function.iterate_succ_apply'] at h ⊢
    have hself := multipleEncode_eq_self (noSpace_iterate hs) h
    rw [hself] at h ⊢
    exact ih h

theorem multipleDecode_multipleEncode (hpercent : 37 ∉ s) (hs : NoSpace s) :
    multipleDecode (multipleEncode s) = s := by
  obtain ⟨hresult, hret⟩ := decodePass_pieces fun c hc =>
    exists_single (hs c hc) fun h => hpercent (h ▸ hc)
  have hnot : ¬ (decodePass (multipleEncode s)).ret := by
    rw [multipleEncode, hret]
    simp
  exact (multipleDecode_of_not_ret hnot).trans hresult

/-- Any number of encodings is undone. -/
theorem multipleDecode_iterate (s : Bytes) (n : ℕ) (hn : 1 ≤ n) (hpercent : 37 ∉ s)
    (hspace : ∀ c ∈ s, ¬ HttpRequest.isspace c) : multipleDecode (multipleEncode^[n] s) = s := by
  -- The induction goes in steps of two layers.
  induction n using Nat.strong_induction_on with
  | _ n ih =>
    match n, hn with
    | 1, _ => exact multipleDecode_multipleEncode hpercent hspace
    | 2, _ =>
      obtain ⟨hresult, hret⟩ := decodePass_twice hspace
      exact (multipleDecode_of_not_ret (mt hret.mp hpercent)).trans hresult
    | n + 3, _ =>
      obtain ⟨hresult, hret⟩ := decodePass_twice (noSpace_iterate (n := n + 1) hspace)
      rw [Function.iterate_succ_apply', Function.iterate_succ_apply']
      by_cases h : 37 ∈ multipleEncode^[n + 1] s
      · rw [multipleDecode_of_ret (hret.mpr h), hresult]
        exact ih (n + 1) (by omega) (by omega)
      · rw [multipleDecode_of_not_ret (mt hret.mp h), hresult]
        exact iterate_eq_self hspace h

theorem multipleDecode_iterate_three : multipleDecode (multipleEncode^[3] (ascii "a+b/=")) =
    ascii "a+b/=" :=
  multipleDecode_iterate _ 3 (by decide) (by decide) (by decide +kernel)

end Layers

end LibWebsocket.Url

import LibWebsocket.Url.Pieces

/-! The passes of `Decode_2`: how often it decodes again, and where a pass reads behind the end of
its string. -/
namespace LibWebsocket.Url
open Lib Http

section Reads
variable {s t : Bytes} {n : ℕ} {ps : List Piece}

/-- What has no zero byte lies inside the string. -/
theorem prefix_of_prefix_append_replicate (h : t <+: s ++ List.replicate n 0) (hzero : 0 ∉ t) :
    t <+: s := by
  rcases List.prefix_or_prefix_of_prefix h (List.prefix_append s _) with hts | ⟨r, rfl⟩
  · exact hts
  · cases r with
    | nil => simp
    | cons c r =>
      have hc : c ∈ List.replicate n (0 : UInt8) :=
        ((List.prefix_append_right_inj s).mp h).subset List.mem_cons_self
      rw [(List.mem_replicate.mp hc).2] at hzero
      simp at hzero

theorem Piece.text_of_again {p : Piece} (h : p.again) : p.text = [37, 50, 53, 50, 53] := by
  cases p with
  | plain | plus | escape => cases h
  | double a b =>
    obtain ⟨rfl, rfl⟩ := strToBin_eq_percent_iff.mp (of_decide_eq_true h)
    rfl

/-- A pass that asks for another one has replaced five characters by one. -/
theorem Reads.add_four_le (h : Reads s ps) (hagain : ps.any Piece.again) :
    ps.length + 4 ≤ s.length := by
  induction h with
  | nil => cases hagain
  | @cons s p ps hs hp hrest ih =>
    have hlen := hrest.length_le
    have hspos := List.length_pos_of_ne_nil hs
    have hppos := p.text_length_pos
    rw [List.length_drop] at hlen ih
    rw [List.any_cons, Bool.or_eq_true] at hagain
    rw [List.length_cons]
    rcases hagain with hagain | hagain
    · rw [p.text_of_again hagain] at hp hlen
      have hfive := (prefix_of_prefix_append_replicate hp (by decide)).length_le
      simp only [List.length_cons, List.length_nil] at hfive hlen
      omega
    · have htail := ih hagain
      omega

/-- Whole pieces are read as they are. -/
theorem reads_flatMap (ps : List Piece) : Reads (ps.flatMap Piece.text) ps := by
  induction ps with
  | nil => exact .nil
  | cons p ps ih =>
    have hne : p.text ≠ [] := List.ne_nil_of_length_pos p.text_length_pos
    rw [List.flatMap_cons]
    refine .cons (by simp [hne]) ?_ (by rwa [List.drop_left])
    rw [List.append_assoc]
    exact List.prefix_append _ _

/-- Without a read behind its end the string consists of whole pieces. -/
theorem Reads.eq_flatMap (h : Reads s ps) (hlen : (ps.flatMap Piece.text).length ≤ s.length) :
    s = ps.flatMap Piece.text := by
  induction h with
  | nil => rfl
  | @cons s p ps hs hp _ ih =>
    rw [List.flatMap_cons, List.length_append] at hlen
    have hps : p.text <+: s :=
      List.prefix_of_prefix_length_le hp (List.prefix_append s _) (by omega)
    obtain ⟨r, rfl⟩ := hps
    rw [List.drop_left] at ih
    rw [List.flatMap_cons, ← ih (by rw [List.length_append] at hlen; omega)]

end Reads

section Pass
variable {str t : Bytes}

theorem length_result_add_four_le (h : (decodePass t).ret) :
    (decodePass t).result.length + 4 ≤ t.length := by
  obtain ⟨ps, hps⟩ := exists_reads t
  rw [decodePass_eq hps] at h ⊢
  rw [List.length_map]
  exact hps.add_four_le h

theorem decodeAgain_terminates (t : Bytes) :
    ∃ result, ∀ fuel, t.length < fuel → decodeAgain fuel t = some result := by
  induction hn : t.length using Nat.strong_induction_on generalizing t with
  | _ n ih =>
    by_cases hret : (decodePass t).ret
    · have hlen := length_result_add_four_le hret
      obtain ⟨result, hresult⟩ := ih _ (by omega) (decodePass t).result rfl
      refine ⟨result, fun fuel hfuel => ?_⟩
      obtain ⟨fuel, rfl⟩ : ∃ m, fuel = m + 1 := ⟨fuel - 1, by omega⟩
      rw [decodeAgain, if_pos hret, hresult fuel (by omega)]
    · refine ⟨(decodePass t).result, fun fuel hfuel => ?_⟩
      obtain ⟨fuel, rfl⟩ : ∃ m, fuel = m + 1 := ⟨fuel - 1, by omega⟩
      rw [decodeAgain, if_neg hret]

/-- `Decode_2` ends: a pass that asks for another one leaves a shorter string, so that the first
pass and those of the loop are together no more than the characters, or there is just the first. -/
theorem decode2_terminates (str : Bytes) :
    (∀ t, (decodePass t).ret → (decodePass t).result.length < t.length) ∧
      ∃ result, ∀ fuel, str.length ≤ fuel + 1 → decode2 fuel str = some result := by
  refine ⟨fun t ht => by have := length_result_add_four_le ht; omega, ?_⟩
  by_cases hret : (decodePass str).ret
  · have hlen := length_result_add_four_le hret
    obtain ⟨result, hresult⟩ := decodeAgain_terminates (decodePass str).result
    refine ⟨result, fun fuel hfuel => ?_⟩
    rw [decode2, if_pos hret, hresult fuel (by omega)]
  · exact ⟨(decodePass str).result, fun fuel _ => by rw [decode2, if_neg hret]⟩

/-- The strings that the passes of `Decode_2` read. -/
inductive PassOf (str : Bytes) : Bytes → Prop
  | first : PassOf str str
  | again {t : Bytes} (h : PassOf str t) (hret : (decodePass t).ret) :
      PassOf str (decodePass t).result

/-- Every pass reads inside its string. -/
def InBounds (str : Bytes) : Prop := ∀ t, PassOf str t → ∀ i ∈ (decodePass t).reads, i < t.length

/-- No escape is cut off, nor in what the escapes stand for if one of them stands for `%`. -/
inductive Layered : Bytes → Prop
  | last {ps : List Piece} (h : ¬ ps.any Piece.again) : Layered (ps.flatMap Piece.text)
  | next {ps : List Piece} (h : ps.any Piece.again) (hnext : Layered (ps.map Piece.value)) :
      Layered (ps.flatMap Piece.text)

theorem PassOf.tail {r : Bytes} (hret : (decodePass str).ret)
    (h : PassOf (decodePass str).result r) : PassOf str r := by
  induction h with
  | first => exact .again .first hret
  | again _ hr ih => exact .again ih hr

theorem PassOf.cases_first (h : PassOf str t) :
    t = str ∨ (decodePass str).ret ∧ PassOf (decodePass str).result t := by
  induction h with
  | first => exact .inl rfl
  | again h hr ih =>
    rcases ih with rfl | ⟨hret, htail⟩
    · exact .inr ⟨hr, .first⟩
    · exact .inr ⟨hret, .again htail hr⟩

theorem decodePass_flatMap (ps : List Piece) :
    decodePass (ps.flatMap Piece.text) =
      ⟨(ps.flatMap Piece.text).length, ps.map Piece.value, ps.any Piece.again,
        List.range (ps.flatMap Piece.text).length⟩ :=
  decodePass_eq (reads_flatMap ps)

/-- A pass that stays inside has met whole pieces only; the passes behind it read shorter strings. -/
theorem InBounds.layered (h : InBounds str) : Layered str := by
  induction hn : str.length using Nat.strong_induction_on generalizing str with
  | _ n ih =>
    obtain ⟨ps, hps⟩ := exists_reads str
    have hreads := h str .first
    rw [decodePass_eq hps] at hreads
    have hlen : (ps.flatMap Piece.text).length ≤ str.length := by
      by_contra hlt
      exact absurd (hreads str.length (List.mem_range.mpr (not_le.mp hlt))) (lt_irrefl _)
    obtain rfl := hps.eq_flatMap hlen
    by_cases hagain : ps.any Piece.again
    · have hpass := decodePass_flatMap ps
      have hret : (decodePass (ps.flatMap Piece.text)).ret := by rwa [hpass]
      have hshort := length_result_add_four_le hret
      have hnext := ih _ (by omega) (fun t ht => h t (ht.tail hret)) rfl
      rw [hpass] at hnext
      exact .next hagain hnext
    · exact .last hagain

theorem reads_flatMap_lt (ps : List Piece) :
    ∀ i ∈ (decodePass (ps.flatMap Piece.text)).reads, i < (ps.flatMap Piece.text).length := by
  intro i hi
  rw [decodePass_flatMap] at hi
  exact List.mem_range.mp hi

theorem Layered.inBounds (h : Layered str) : InBounds str := by
  induction h with
  | @last ps hlast =>
    intro t ht
    rcases ht.cases_first with rfl | ⟨hret, -⟩
    · exact reads_flatMap_lt ps
    · rw [decodePass_flatMap] at hret
      exact absurd hret hlast
  | @next ps hagain _ ih =>
    intro t ht
    rcases ht.cases_first with rfl | ⟨-, htail⟩
    · exact reads_flatMap_lt ps
    · rw [decodePass_flatMap] at htail
      exact ih t htail

/-- `MultipleDecode` reads inside its strings exactly if no pass meets an escape that is cut off
by the end. -/
theorem inBounds_iff_layered (str : Bytes) : InBounds str ↔ Layered str := by
  constructor
  · exact InBounds.layered
  · exact Layered.inBounds

/-- A lone `%` is read two characters too far. -/
theorem not_inBounds_percent : ¬ InBounds (ascii "%") := by
  intro h
  have hread : 2 ∈ (decodePass (ascii "%")).reads := by decide
  have hlt := h _ .first 2 hread
  revert hlt
  decide

end Pass

end LibWebsocket.Url

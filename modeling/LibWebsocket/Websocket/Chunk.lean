import LibWebsocket.Websocket.Interleave

/-! Streams that arrive in pieces. Inside a masked frame the bytes still to come are known,
and more input never changes what the machine could already do; the type computed at the
start of a call has no effect. So every way to cut a stream of masked frames gives the same
run. -/
namespace LibWebsocket.Websocket
open Lib Rfc6455

/-- The bytes `q` of the current frame, which is masked, are still to come. Its header
satisfies `Q`. -/
def Context.Awaits (Q : Header → Prop) (c : Context) (q : Bytes) : Prop :=
  Q c.header.header ∧
  match c.step with
  | .readFrameHeader => q = []
  | .readExtendedPayloadlenU16 =>
    c.header.header.mask = true ∧ q.length = 2 + (4 + beNat (q.take 2))
  | .readExtendedPayloadlenI64 =>
    c.header.header.mask = true ∧ q.length = 8 + (4 + beNat (q.take 8))
  | .readMaskingkey => c.header.header.mask = true ∧ q.length = 4 + c.header.getRealDatalen
  | _ => c.header.header.mask = true ∧ q.length = c.header.getRealDatalen

/-- The input continues to whole masked frames. -/
def Aligned (Q : Header → Prop) (c : Context) (b : Bytes) : Prop :=
  c.Shape ∧ ∃ q t fs, c.Awaits Q q ∧ (∀ f ∈ fs, f.key.isSome ∧ Q (headerOf f)) ∧
    b ++ t = q ++ stream fs

section Local
variable {Q : Header → Prop} {ty : FrameControlE} {c c' : Context} {b b' q x t : Bytes}
  {f : WireFrame} {o : List Callback}

/-- The frame that is read, or whose header comes next, is masked. -/
structure MaskedAt (c : Context) (b : Bytes) : Prop where
  header : c.step = .readFrameHeader → 2 ≤ b.length → (c.withHeader b).header.header.mask = true
  payload : c.step.IsPayload → c.header.header.mask = true

theorem withHeader_append (h : 2 ≤ b.length) : c.withHeader (b ++ x) = c.withHeader b := by
  match b, h with
  | b0 :: b1 :: b, _ => rfl

/-- The outcome of a tick when `x` follows the input. -/
def Tick.append (x : Bytes) : Tick → Tick := Except.map (Option.map fun r => (r.1, r.2.1 ++ x, r.2.2))

theorem tickDeliver_append {n : ℕ} (h : n ≤ b.length) :
    tickDeliver ty c (b ++ x) n = Tick.append x (tickDeliver ty c b n) := by
  unfold tickDeliver
  rw [List.take_append_of_le_length h, List.drop_append_of_le_length h]
  cases c.deliver ty (b.take n) <;> rfl

theorem tickFrameHeader_append
    (hm : 2 ≤ b.length → (c.withHeader b).header.header.mask = true)
    (hb : tickFrameHeader c b ≠ .ok none) :
    tickFrameHeader c (b ++ x) = Tick.append x (tickFrameHeader c b) := by
  have hlen : 2 ≤ b.length := by
    by_contra h
    exact hb (if_pos (by omega))
  have hwith : c.withHeader (b ++ x) = c.withHeader b := withHeader_append hlen
  have hread : c.headerRead (b ++ x) = c.headerRead b := by
    rw [Context.headerRead, Context.headerRead, hwith]
  have hshort : ¬ (c.headerRead b).header.header.ShortUnmasked := by
    rw [Context.headerRead_header]
    rintro ⟨-, -, h⟩
    simp [hm hlen] at h
  have hshort' : ∀ n : ℕ, ¬ ((c.headerRead b).header.header.ShortUnmasked ∧
      (c.headerRead b).header.getRealDatalen ≤ n) := fun _ h => hshort h.1
  have hlong : ¬ (b ++ x).length < 2 := by
    rw [List.length_append]
    omega
  unfold tickFrameHeader
  rw [hwith, hread, if_neg hlong, if_neg (not_lt.mpr hlen), if_neg (hshort' _),
    if_neg (hshort' _), List.drop_append_of_le_length hlen]
  split_ifs <;> rfl

theorem tickPayloadlen_append {k : ℕ} {set : ExtendedHeader → ℕ → ExtendedHeader}
    (hb : tickPayloadlen k set c b ≠ .ok none) :
    tickPayloadlen k set c (b ++ x) = Tick.append x (tickPayloadlen k set c b) := by
  have hlen : k ≤ b.length := by
    by_contra h
    exact hb (if_pos (by omega))
  have hwith : c.withPayloadlen k set (b ++ x) = c.withPayloadlen k set b := by
    rw [Context.withPayloadlen, Context.withPayloadlen, List.take_append_of_le_length hlen]
  have hlong : ¬ (b ++ x).length < k := by
    rw [List.length_append]
    omega
  unfold tickPayloadlen
  rw [hwith, if_neg hlong, if_neg (not_lt.mpr hlen), List.drop_append_of_le_length hlen]
  rfl

theorem tickMaskingkey_append (hb : tickMaskingkey c b ≠ .ok none) :
    tickMaskingkey c (b ++ x) = Tick.append x (tickMaskingkey c b) := by
  have hlen : 4 ≤ b.length := by
    by_contra h
    exact hb (if_pos (by omega))
  have hwith : c.withKey (b ++ x) = c.withKey b := by
    have hkey : (fun i : Fin 4 => (b ++ x).getD i 0) = fun i : Fin 4 => b.getD i 0 := by
      funext i
      have hi : (i : ℕ) < b.length := by omega
      simp only [List.getD_eq_getElem?_getD, List.getElem?_append_left hi]
    rw [Context.withKey, Context.withKey, hkey]
  have hlong : ¬ (b ++ x).length < 4 := by
    rw [List.length_append]
    omega
  unfold tickMaskingkey
  rw [hwith, if_neg hlong, if_neg (not_lt.mpr hlen), List.drop_append_of_le_length hlen]
  split_ifs <;> rfl

theorem tickPayload_append (hm : c.header.header.mask = true)
    (hb : tickPayload ty c b ≠ .ok none) :
    tickPayload ty c (b ++ x) = Tick.append x (tickPayload ty c b) := by
  rw [tickPayload_of_masked ty _ hm] at hb ⊢
  rw [tickPayload_of_masked ty _ hm]
  by_cases hbad : c.header.header.BadControl c.header.header.control
  · rw [if_pos hbad, if_pos hbad]
    rfl
  · rw [if_neg hbad] at hb
    rw [if_neg hbad, if_neg hbad]
    have hlen : c.header.getRealDatalen ≤ b.length := by
      by_contra h
      exact hb (if_pos (by omega))
    have hlong : ¬ (b ++ x).length < c.header.getRealDatalen := by
      rw [List.length_append]
      omega
    rw [if_neg hlong, if_neg (not_lt.mpr hlen)]
    exact tickDeliver_append hlen

/-- More input does not change what a masked frame makes the machine do. -/
theorem tick_append (hm : MaskedAt c b) (hb : tick ty c b ≠ .ok none) :
    tick ty c (b ++ x) = Tick.append x (tick ty c b) := by
  by_cases hp : c.step.IsPayload
  · rw [tick_of_isPayload hp] at hb ⊢
    rw [tick_of_isPayload hp]
    exact tickPayload_append (hm.payload hp) hb
  · have hheader := hm.header
    unfold tick at hb ⊢
    cases hs : c.step with
    | readFrameHeader =>
      rw [hs] at hb
      exact tickFrameHeader_append (hheader hs) hb
    | readExtendedPayloadlenU16 | readExtendedPayloadlenI64 =>
      rw [hs] at hb
      exact tickPayloadlen_append hb
    | readMaskingkey =>
      rw [hs] at hb
      exact tickMaskingkey_append hb
    | _ => exact absurd (by rw [hs]; decide) hp

theorem tick_ty (ty ty' : FrameControlE) (hm : c.step.IsPayload → c.header.header.mask = true) :
    tick ty c b = tick ty' c b := by
  by_cases hp : c.step.IsPayload
  · rw [tick_of_isPayload hp, tick_of_isPayload hp]
    rw [tickPayload_of_masked ty b (hm hp), tickPayload_of_masked ty' b (hm hp)]
  · unfold tick
    cases hs : c.step <;> first | rfl | exact absurd (by rw [hs]; decide) hp

theorem awaits_of_isPayload (hp : c.step.IsPayload) :
    c.Awaits Q q ↔ Q c.header.header ∧ c.header.header.mask = true ∧
      q.length = c.header.getRealDatalen := by
  unfold Context.Awaits
  rcases hp with h | h | h <;> rw [h]

theorem awaits_boundary (hc : c.Boundary) (hQ : Q .zero) : c.Awaits Q [] := by
  rw [Context.Awaits, hc.step, hc.header]
  exact ⟨hQ, rfl⟩

theorem awaits_inFrame (c : Context) (hk : f.key.isSome) (hQ : Q (headerOf f)) :
    (c.inFrame ⟨headerOf f, fun _ => 0, 0⟩ (headerOf f).nextStep).Awaits Q
      (f.form.extension f.payload.length ++ (keyBytes f.key ++ applyKey f.key f.payload)) := by
  have hmask : (headerOf f).mask = true := hk
  have hkey : (keyBytes f.key).length = 4 := by
    obtain ⟨k, hk⟩ := Option.isSome_iff_exists.mp hk
    simp [hk, keyBytes]
  have h126 := payloadlen_eq_126_iff f
  have h127 := payloadlen_eq_127_iff f
  have hfits := f.fits
  refine ⟨hQ, ?_⟩
  cases hform : f.form with
  | bits7 =>
    simp only [hform, reduceCtorEq, iff_false] at h126 h127
    have hL := getRealDatalen_of_loaded f fun _ => 0
    rw [extendedOf, hform, if_pos rfl] at hL
    simp only [Context.inFrame, Header.nextStep, if_neg h126, if_neg h127, hmask, if_true,
      LenForm.extension, List.nil_append, List.length_append, hkey, length_applyKey, hL]
    trivial
  | bits16 =>
    simp only [hform, iff_true] at h126
    simp only [hform, LenForm.Fits] at hfits
    have ht : ∀ r : Bytes, (beBytes 2 f.payload.length ++ r).take 2 = beBytes 2 f.payload.length :=
      fun r => List.take_left' (by simp)
    have hn : f.payload.length % 256 ^ 2 = f.payload.length := Nat.mod_eq_of_lt (by omega)
    simp only [Context.inFrame, Header.nextStep, if_pos h126, hmask, LenForm.extension, ht,
      beNat_beBytes, hn, List.length_append, length_beBytes, hkey, length_applyKey]
    trivial
  | bits64 =>
    simp only [hform, iff_true] at h127
    have h126 : (headerOf f).payloadlen ≠ 126 := by rw [h127]; decide
    simp only [hform, LenForm.Fits] at hfits
    have ht : ∀ r : Bytes, (beBytes 8 f.payload.length ++ r).take 8 = beBytes 8 f.payload.length :=
      fun r => List.take_left' (by simp)
    have hn : f.payload.length % 256 ^ 8 = f.payload.length := Nat.mod_eq_of_lt (by omega)
    simp only [Context.inFrame, Header.nextStep, if_neg h126, if_pos h127, hmask,
      LenForm.extension, ht, beNat_beBytes, hn, List.length_append, length_beBytes, hkey,
      length_applyKey]
    trivial

theorem getRealDatalen_withKey :
    (c.withKey b).header.getRealDatalen = c.header.getRealDatalen := by
  unfold ExtendedHeader.getRealDatalen Context.withKey
  rfl

/-- Reading the extended length of a masked frame. -/
theorem awaits_withPayloadlen {k : ℕ} {set : ExtendedHeader → ℕ → ExtendedHeader}
    (hQ : Q c.header.header) (hm : c.header.header.mask = true)
    (hset : ∀ n, (set c.header n).header = c.header.header)
    (hlen : (set c.header (beNat (q.take k))).getRealDatalen = beNat (q.take k))
    (hq : q.length = k + (4 + beNat (q.take k))) (hb : b.take k = q.take k) :
    (c.withPayloadlen k set b).Awaits Q (q.drop k) := by
  have hstep : (c.withPayloadlen k set b).step = .readMaskingkey := by
    simp [Context.withPayloadlen, hm]
  have hheader : (c.withPayloadlen k set b).header = set c.header (beNat (q.take k)) := by
    rw [Context.withPayloadlen, hb]
  rw [Context.Awaits, hstep, hheader, hset, hlen]
  refine ⟨hQ, hm, ?_⟩
  rw [List.length_drop]
  omega

theorem split_append {r : Bytes} {n : ℕ} (h : b ++ t = q ++ r) (hb : n ≤ b.length)
    (hq : n ≤ q.length) : b.take n = q.take n ∧ b.drop n ++ t = q.drop n ++ r := by
  have htake := congrArg (List.take n) h
  have hdrop := congrArg (List.drop n) h
  rw [List.take_append_of_le_length hb, List.take_append_of_le_length hq] at htake
  rw [List.drop_append_of_le_length hb, List.drop_append_of_le_length hq] at hdrop
  exact ⟨htake, hdrop⟩

/-- The tick that reads the extended length goes on to the masking key. -/
theorem awaits_tickPayloadlen {r : Bytes} {k : ℕ} {set : ExtendedHeader → ℕ → ExtendedHeader}
    (hQ : Q c.header.header) (hm : c.header.header.mask = true)
    (hset : ∀ n, (set c.header n).header = c.header.header)
    (hlen : (set c.header (beNat (q.take k))).getRealDatalen = beNat (q.take k))
    (hq : q.length = k + (4 + beNat (q.take k))) (he : b ++ t = q ++ r)
    (h : tickPayloadlen k set c b = .ok (some (c', b', o))) :
    o = [] ∧ c'.step ≠ .readFrameHeader ∧ ∃ q', c'.Awaits Q q' ∧ b' ++ t = q' ++ r := by
  obtain ⟨hb, rfl, rfl, rfl⟩ := tickPayloadlen_ok h
  obtain ⟨htake, hdrop⟩ := split_append he hb (by omega)
  refine ⟨rfl, by simp [Context.withPayloadlen, hm], q.drop k, ?_, hdrop⟩
  exact awaits_withPayloadlen hQ hm hset hlen hq htake

/-- A tick inside a masked frame stays in it without output, or ends it. -/
theorem awaits_tick {r : Bytes} (hshape : c.Shape) (hq : c.Awaits Q q)
    (hstep : c.step ≠ .readFrameHeader) (he : b ++ t = q ++ r)
    (h : tick ty c b = .ok (some (c', b', o))) :
    (o = [] ∧ c'.step ≠ .readFrameHeader ∧ ∃ q', c'.Awaits Q q' ∧ b' ++ t = q' ++ r) ∨
      (c'.Boundary ∧ q.length ≤ b.length ∧ b' ++ t = r) := by
  by_cases hp : c.step.IsPayload
  · rw [tick_of_isPayload hp] at h
    obtain ⟨-, -, hlen, hd, rfl⟩ := tickPayload_ok h
    obtain ⟨-, -, hL⟩ := (awaits_of_isPayload hp).mp hq
    obtain ⟨hs, hh⟩ := deliver_step hd
    refine .inr ⟨⟨hs, hh⟩, hL.trans_le hlen, ?_⟩
    rw [← hL, (split_append he (hL.trans_le hlen) le_rfl).2, List.drop_length, List.nil_append]
  · left
    obtain ⟨hQ, hrest⟩ := hq
    unfold Context.Shape at hshape
    unfold tick at h
    cases hs : c.step with
    | readFrameHeader => exact absurd hs hstep
    | readExtendedPayloadlenU16 =>
      rw [hs] at h hrest hshape
      obtain ⟨hm, hlen⟩ := hrest
      exact awaits_tickPayloadlen hQ hm (fun _ => c.header.header_setExtendedPayloadlenU16 _)
        (getRealDatalen_setU16 (beNat_take_lt (by omega) rfl) hshape) hlen he h
    | readExtendedPayloadlenI64 =>
      rw [hs] at h hrest hshape
      obtain ⟨hm, hlen⟩ := hrest
      exact awaits_tickPayloadlen hQ hm (fun _ => c.header.header_setExtendedPayloadlenI64 _)
        (getRealDatalen_setI64 (beNat_take_lt (by omega) rfl) hshape) hlen he h
    | readMaskingkey =>
      rw [hs] at h hrest
      obtain ⟨hm, hlen⟩ := hrest
      obtain ⟨hb, -, -, rfl, rfl, rfl⟩ := tickMaskingkey_ok h
      have hpay : (c.withKey b).step.IsPayload := payloadStep_isPayload _
      refine ⟨rfl, ?_, _, ?_, (split_append he hb (by omega)).2⟩
      · intro hrfh
        rw [hrfh] at hpay
        exact absurd hpay (by decide)
      · refine (awaits_of_isPayload hpay).mpr ⟨hQ, hm, ?_⟩
        rw [List.length_drop, hlen, Nat.add_sub_cancel_left, getRealDatalen_withKey]
    | _ => exact absurd (by rw [hs]; decide) hp

/-- The header of the next frame is read from its first two bytes. -/
theorem headerRead_of_append {r : Bytes} (hc : c.Boundary) (hlen : 2 ≤ b.length)
    (he : b ++ t = f.wire ++ r) :
    c.headerRead b = c.inFrame ⟨headerOf f, fun _ => 0, 0⟩ (headerOf f).nextStep := by
  have hwith : c.withHeader b = c.withHeader (f.wire ++ r) := by
    rw [← he, withHeader_append hlen]
  have hread := Context.headerRead_boundary hc (f.wire ++ r)
  rw [headOf_wire] at hread
  rw [← hread, Context.headerRead, Context.headerRead, hwith]

theorem header_tick {r : Bytes} (hc : c.Boundary) (hk : f.key.isSome) (he : b ++ t = f.wire ++ r)
    (h : tick ty c b = .ok (some (c', b', o))) :
    o = [] ∧ c' = c.inFrame ⟨headerOf f, fun _ => 0, 0⟩ (headerOf f).nextStep ∧
      b' ++ t = (f.form.extension f.payload.length ++
        (keyBytes f.key ++ applyKey f.key f.payload)) ++ r := by
  rw [tick, hc.step] at h
  obtain ⟨hlen, -, hcases⟩ := tickFrameHeader_ok h
  have hread := headerRead_of_append hc hlen he
  obtain ⟨hshort, -, -, -⟩ | ⟨-, rfl, rfl, rfl⟩ := hcases
  · rw [hread] at hshort
    obtain ⟨-, hkey⟩ := (shortUnmasked_iff f).mp hshort
    simp [hkey] at hk
  · refine ⟨rfl, hread, ?_⟩
    have hdrop := (split_append he hlen (by simp [WireFrame.wire])).2
    simpa [WireFrame.wire] using hdrop

theorem boundary_of_shape (hshape : c.Shape) (hs : c.step = .readFrameHeader) : c.Boundary := by
  rw [Context.Shape, hs] at hshape
  exact ⟨hs, hshape⟩

/-- Between two frames the input is empty or begins a frame. -/
theorem Aligned.boundary (ha : Aligned Q c b) (hs : c.step = .readFrameHeader) :
    c.Boundary ∧ (b = [] ∨ ∃ f fs t, (f.key.isSome ∧ Q (headerOf f)) ∧
      (∀ g ∈ fs, g.key.isSome ∧ Q (headerOf g)) ∧ b ++ t = f.wire ++ stream fs) := by
  obtain ⟨hshape, q, t, fs, hq, hfs, he⟩ := ha
  refine ⟨boundary_of_shape hshape hs, ?_⟩
  rw [Context.Awaits, hs] at hq
  obtain ⟨-, rfl⟩ := hq
  cases fs with
  | nil => exact .inl (List.append_eq_nil_iff.mp (by simpa using he)).1
  | cons f fs =>
    rw [List.nil_append, stream_cons] at he
    obtain ⟨hf, hfs⟩ := List.forall_mem_cons.mp hfs
    exact .inr ⟨f, fs, t, hf, hfs, he⟩

theorem Aligned.tick (hQ : Q .zero) (ha : Aligned Q c b)
    (h : tick ty c b = .ok (some (c', b', o))) : Aligned Q c' b' := by
  refine ⟨tick_shape h, ?_⟩
  by_cases hs : c.step = .readFrameHeader
  · obtain ⟨hc, rfl | ⟨f, fs, t, ⟨hk, hQf⟩, hfs, he⟩⟩ := ha.boundary hs
    · rw [Websocket.tick, hs] at h
      exact absurd (tickFrameHeader_ok h).1 (by decide)
    · obtain ⟨-, rfl, he'⟩ := header_tick hc hk he h
      exact ⟨_, t, fs, awaits_inFrame c hk hQf, hfs, he'⟩
  · obtain ⟨hshape, q, t, fs, hq, hfs, he⟩ := ha
    obtain ⟨-, -, q', hq', he'⟩ | ⟨hc', -, he'⟩ := awaits_tick hshape hq hs he h
    · exact ⟨q', t, fs, hq', hfs, he'⟩
    · exact ⟨[], t, fs, awaits_boundary hc' hQ, hfs, he'⟩

theorem Aligned.maskedAt (ha : Aligned Q c b) : MaskedAt c b where
  header hs hlen := by
    obtain ⟨hc, rfl | ⟨f, fs, t, ⟨hk, -⟩, -, he⟩⟩ := ha.boundary hs
    · exact absurd hlen (by decide)
    · rw [← Context.headerRead_header, headerRead_of_append hc hlen he]
      exact hk
  payload hp := by
    obtain ⟨-, q, t, fs, hq, -⟩ := ha
    exact ((awaits_of_isPayload hp).mp hq).2.1

theorem Aligned.take (ha : Aligned Q c (b ++ x)) : Aligned Q c b := by
  obtain ⟨hshape, q, t, fs, hq, hfs, he⟩ := ha
  exact ⟨hshape, q, x ++ t, fs, hq, hfs, by rw [← he, List.append_assoc]⟩

theorem aligned_stable (ty : FrameControlE) (hQ : Q .zero) : (machine ty).Stable (Aligned Q) :=
  .of_tick_append Aligned.take (fun ha h => ha.tick hQ h) fun ha h =>
    tick_append ha.take.maskedAt h

/-- The type that a call computes first does not matter to masked frames. -/
theorem run_ty (ty ty' : FrameControlE) (hQ : Q .zero) (ha : Aligned Q c b) :
    (machine ty).run c b = (machine ty').run c b :=
  Consumer.run_congr (D := Aligned Q) (fun ha => tick_ty ty ty' ha.maskedAt.payload)
    (fun ha h => ha.tick hQ h) ha

/-- Inside a masked frame of which bytes are missing. -/
def Incomplete (c : Context) (b : Bytes) : Prop :=
  c.Shape ∧ c.step ≠ .readFrameHeader ∧
    ∃ q t, c.Awaits (fun _ => True) q ∧ t ≠ [] ∧ b ++ t = q

theorem steps_incomplete (h : (machine ty).Steps c b o c' b') (hi : Incomplete c b) : o = [] := by
  induction h with
  | refl => rfl
  | head ht _ ih =>
    obtain ⟨hshape, hs, q, t, hq, hne, he⟩ := hi
    have he' := he.trans (List.append_nil q).symm
    obtain ⟨rfl, hs', q', hq', hb'⟩ | ⟨-, hlen, -⟩ := awaits_tick hshape hq hs he' ht
    · rw [ih ⟨tick_shape ht, hs', q', t, hq', hne, by simpa using hb'⟩]
      rfl
    · have hpos := List.length_pos_of_ne_nil hne
      rw [← he, List.length_append] at hlen
      omega

/-- A masked frame of which bytes are missing has no effect to be seen from outside. -/
theorem run_incomplete (hc : c.Boundary) (hk : f.key.isSome) (he : b ++ t = f.wire) (hne : t ≠ [])
    (h : (machine ty).run c b = .ok (c', b', o)) : o = [] := by
  obtain ⟨hsteps, -⟩ := (machine ty).run_eq_ok_iff.mp h
  have he' : b ++ t = f.wire ++ [] := by simpa using he
  cases hsteps with
  | refl => rfl
  | head ht hrest =>
    obtain ⟨rfl, rfl, hb⟩ := header_tick hc hk he' ht
    refine steps_incomplete hrest ⟨tick_shape ht, ?_, _, t, awaits_inFrame c hk trivial, hne, ?_⟩
    · change (headerOf f).nextStep ≠ _
      unfold Header.nextStep
      split_ifs <;> decide
    · simpa using hb

end Local

section Feed
variable {Q : Header → Prop} {handler : ICallbackHandler} {w w' : Parser}

/-- One call, and what it leaves for the next. -/
theorem parseFrame_aligned {b' x : Bytes} {c' : Context} {o : List Callback} (hQ : Q .zero)
    (hw : w.context.Settled) (ha : Aligned Q w.context (w.buf ++ x))
    (h : (machine .unControlFrame).run w.context w.buf = .ok (c', b', o)) :
    c'.Settled ∧ Aligned Q c' (b' ++ x) ∧ tick .unControlFrame c' b' = .ok none := by
  obtain ⟨hsteps, hwait⟩ := (machine _).run_eq_ok_iff.mp h
  exact ⟨run_settled hw h, ((aligned_stable _ hQ).steps_append hsteps ha).2, hwait⟩

/-- On masked frames, feeding chunks is running the machine on all of them, unless a call
begins inside a frame of invalid type. -/
theorem feed_cases (handler : ICallbackHandler) (chunks : List Bytes) (hQ : Q .zero)
    (hw : w.context.Settled) (hwait : tick .unControlFrame w.context w.buf = .ok none)
    (ha : Aligned Q w.context (w.buf ++ chunks.flatten)) :
    feed handler w chunks =
        ((machine .unControlFrame).run w.context (w.buf ++ chunks.flatten)).map w.ofRest ∨
      feed handler w chunks = .error (.assertion .getFrameControlMessageType) ∧
        ∃ h, Q h ∧ ¬ h.TypeOk := by
  induction chunks generalizing w with
  | nil =>
    rw [List.flatten_nil, List.append_nil, (machine _).run_of_wait hwait]
    simp [feed, Except.map, Parser.ofRest]
  | cons chunk chunks ih =>
    rw [List.flatten_cons, ← List.append_assoc] at ha ⊢
    have hcall := parseFrame_eq handler (w := { w with buf := w.buf ++ chunk }) hw
    by_cases hty : w.context.header.header.TypeOk
    · replace hcall : parseFrame handler { w with buf := w.buf ++ chunk } =
          ((machine .unControlFrame).run w.context (w.buf ++ chunk)).map w.ofRest := by
        refine hcall.trans ((if_pos hty).trans ?_)
        rw [run_ty _ .unControlFrame hQ ha.take]
        rfl
      rw [feed, hcall, (aligned_stable .unControlFrame hQ).run_append _ _ _ ha]
      rcases hr : (machine .unControlFrame).run w.context (w.buf ++ chunk) with e | ⟨c', b', o⟩
      · exact .inl rfl
      · obtain ⟨hsettled, halign, hwait'⟩ := parseFrame_aligned
          (w := { w with buf := w.buf ++ chunk }) hQ hw ha hr
        have hrest := ih (w := w.ofRest (c', b', o)) hsettled hwait' halign
        have hfeed : (Except.map w.ofRest (.ok (c', b', o)) >>= fun w => feed handler w chunks) =
            feed handler (w.ofRest (c', b', o)) chunks := rfl
        rw [hfeed]
        refine hrest.imp_left fun h => h.trans ?_
        simp only [Except.bind, Parser.ofRest]
        generalize (machine .unControlFrame).run c' (b' ++ chunks.flatten) = r
        cases r <;> simp [Except.map, Parser.ofRest, Consumer.Rest.after]
    · right
      obtain ⟨-, q, t, fs, hq, -⟩ := ha
      rw [feed, hcall.trans (if_neg hty)]
      exact ⟨rfl, _, hq.1, hty⟩

end Feed

/-- However the prefix of a stream of masked data frames, pings and pongs is cut into chunks,
feeding them one by one ends as one call on all of it does: with the same callbacks, the same
context and the same unread bytes. -/
theorem feed_eq_parseFrame (handler : ICallbackHandler) (c : Context) (hc : c.Idle)
    (log : List Callback) (s t : Bytes) (fs : List WireFrame) (hfs : ∀ f ∈ fs, DataOrPing f)
    (hs : s ++ t = stream fs) (chunks : List Bytes) (hcut : chunks.flatten = s) :
    feed handler ⟨c, [], log⟩ chunks = parseFrame handler ⟨c, s, log⟩ := by
  have hQ : Header.TypeOk .zero := by decide
  have ha : Aligned Header.TypeOk c ([] ++ chunks.flatten) := by
    refine ⟨hc.toBoundary.settled.1, [], t, fs, awaits_boundary hc.toBoundary hQ, ?_, ?_⟩
    · exact fun f hf => ⟨(hfs f hf).1, (hfs f hf).typeOk⟩
    · rw [List.nil_append, hcut, hs, List.nil_append]
  obtain hrun | ⟨-, h, hok, hnot⟩ := feed_cases handler (w := ⟨c, [], log⟩) chunks hQ
    hc.toBoundary.settled (tick_nil hc.toBoundary.settled) ha
  · rw [hrun, List.nil_append, hcut, parseFrame_boundary handler hc.toBoundary]
    rfl
  · exact absurd hok hnot

/-- A text in two fragments that is cut inside its first header, inside its first key and
inside the header of the ping behind it. -/
theorem feed_eq_parseFrame_cuts :
    feed .retrieveAll ⟨.connected, [], []⟩ [[0x01], [0x81, 7, 7], [7, 7, 0x4f, 0x89]] =
      parseFrame .retrieveAll ⟨.connected, [0x01, 0x81, 7, 7, 7, 7, 0x4f, 0x89], []⟩ :=
  feed_eq_parseFrame .retrieveAll .connected Context.connected_idle [] _
    [0x81, 1, 2, 3, 4, 0x20, 0x80, 0xfe, 0, 1, 7, 7, 7, 7, 0x6e] interleaved (by decide)
    (by decide) _ (by decide)

end LibWebsocket.Websocket

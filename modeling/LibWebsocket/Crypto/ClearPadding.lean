import LibWebsocket.Crypto.AesEcb

/-! `ClearPadding` never looks at the count that the padding states: it compares neighbouring
bytes. On the padding of a printable text this finds its end; on one block of equal bytes it reads
in front of `dst`. -/
namespace LibWebsocket.Crypto
open Lib

/-! ## The loops within their bounds -/

theorem load_eq {mem : Bytes} {i : ℤ} {k : ℕ} (hi : i = k) (hk : k < mem.length) :
    load mem i = .ok (mem.getD k 0) := by
  rw [load, if_pos (by omega), hi, Int.toNat_natCast]

theorem store_eq {mem : Bytes} {i : ℤ} {k : ℕ} (hi : i = k) (hk : k < mem.length) (x : UInt8) :
    store mem i x = .ok (mem.set k x) := by
  rw [store, if_pos (by omega), hi, Int.toNat_natCast]

theorem blockLoop_one (aes : Bytes → Bytes) (iv : Bytes) {b : Bytes} (hb : b.length = 16) :
    blockLoop aes false (b.length / 16) iv b = aes b := by
  rw [hb, blockLoop_ecb_succ, List.take_of_length_le hb.le, blockLoop, List.append_nil]

/-- On whole blocks the loop decrypts each, and leaves what is behind them. -/
theorem decryptLoop_eq {aes : Bytes → Bytes} (haes : ∀ b, (aes b).length = 16)
    (src dst iv : Bytes) (round len : ℕ) (hsrc : src.length = len + 16 * round)
    (hdst : src.length ≤ dst.length) :
    decryptLoop aes src dst len = .ok (src.length,
      dst.take len ++ blockLoop aes false round iv (src.drop len) ++ dst.drop src.length) := by
  induction round generalizing dst len with
  | zero =>
    rw [decryptLoop, if_neg (by omega)]
    simp [blockLoop, hsrc]
  | succ round ih =>
    -- what the loop has written grows by one block, and the rest of `dst` is not touched
    have hfront : (dst.take len ++ aes ((src.drop len).take 16)).length = len + 16 := by
      simp [haes]
      omega
    have hbehind : (dst.take len ++ aes ((src.drop len).take 16) ++ dst.drop (len + 16)).drop
        src.length = dst.drop src.length := by
      rw [List.drop_append, hfront, List.drop_drop, List.drop_of_length_le (by omega),
        List.nil_append, Nat.add_sub_cancel' (by omega)]
    rw [decryptLoop, if_pos (by omega), if_neg (by omega), if_neg (by omega),
      ih _ (len + 16) (by omega) (by simp [haes]; omega), List.take_left' hfront, hbehind,
      blockLoop_ecb_succ, List.drop_drop]
    simp only [List.append_assoc]

/-- As `AES_ECBDecrypt` calls it. -/
theorem decryptLoop_replicate {aes : Bytes → Bytes} (haes : ∀ b, (aes b).length = 16)
    {src : Bytes} (hsrc : 16 * (src.length / 16) = src.length) (past iv : Bytes) :
    decryptLoop aes src (List.replicate src.length 0 ++ past) 0 =
      .ok (src.length, blockLoop aes false (src.length / 16) iv src ++ past) := by
  rw [decryptLoop_eq haes src _ iv (src.length / 16) 0 (by omega) (by simp), List.take_zero,
    List.nil_append, List.drop_zero, List.drop_left' List.length_replicate]

/-! ## The padding of a printable text -/

section Padded
variable {d : Bytes} (hd : d ≠ []) (hprint : ∀ c ∈ d, printable c) (past : Bytes)

theorem toNat_of_printable {c : UInt8} (hc : printable c) : 32 ≤ c.toNat := by
  simp only [printable, decide_eq_true_eq, UInt8.le_iff_toNat_le] at hc
  exact hc.1

theorem zero_notMem_of_printable {d : Bytes} (h : ∀ c ∈ d, printable c) : 0 ∉ d := fun hz =>
  absurd (h 0 hz) (by decide)

theorem getD_count {k : ℕ} (hk : d.length ≤ k) (hk' : k < (padded d).length) :
    (padded d ++ past).getD k 0 = UInt8.ofNat (16 - d.length % 16) := by
  have hlen := length_padded d
  rw [List.getD_append _ _ _ _ hk', padded, List.getD_append_right _ _ _ _ hk,
    List.getD_eq_getElem _ _ (by simp; omega), List.getElem_replicate]

theorem load_last : load (padded d ++ past) ((padded d).length - 1) =
    .ok (.ofNat (16 - d.length % 16)) := by
  have hlen := length_padded d
  rw [load_eq (k := (padded d).length - 1) (by omega) (by simp; omega),
    getD_count past (by omega) (by omega)]

include hd hprint

/-- The last character is none of the counts. -/
theorem getD_last_ne : (padded d ++ past).getD (d.length - 1) 0 ≠ UInt8.ofNat (16 - d.length % 16) := by
  have hpos := List.length_pos_iff.mpr hd
  have hlen := length_padded d
  have hlt : d.length - 1 < d.length := by omega
  rw [List.getD_append _ _ _ _ (by omega), padded, List.getD_append _ _ _ _ hlt,
    List.getD_eq_getElem _ _ hlt]
  intro heq
  have hc := toNat_of_printable (hprint _ (List.getElem_mem hlt))
  rw [heq, UInt8.toNat_ofNat'] at hc
  omega

theorem clearLoop_padded (turns i : ℕ) (hi : i + turns = 17) (hi2 : 2 ≤ i)
    (hip : i ≤ 16 - d.length % 16) :
    clearLoop (padded d ++ past) (padded d).length turns i =
      .ok ((padded d ++ past).set d.length 0) := by
  have hpos := List.length_pos_iff.mpr hd
  have hlen := length_padded d
  have hmem : (padded d).length ≤ (padded d ++ past).length := by simp
  induction turns generalizing i with
  | zero => omega
  | succ turns ih =>
    rw [clearLoop, load_last]
    -- inside the padding the bytes are equal; in front of it stands the last character
    rcases hip.eq_or_lt with hend | hmore
    · rw [load_eq (k := d.length - 1) (by omega) (by omega)]
      simp only [ok_bind]
      rw [if_pos (getD_last_ne hd hprint past).symm,
        store_eq (k := d.length) (by omega) (by omega)]
    · rw [load_eq (k := (padded d).length - 1 - i) (by omega) (by omega),
        getD_count past (by omega) (by omega)]
      simp only [ok_bind, ne_eq, not_true, if_false]
      exact_mod_cast ih (i + 1) (by omega) (by omega) (by omega)

/-- The end of the text is found: one byte of padding differs from the character before it, and
more are equal to each other. -/
theorem clearPadding_padded : clearPadding (padded d ++ past) (padded d).length =
    .ok ((padded d ++ past).set d.length 0) := by
  have hpos := List.length_pos_iff.mpr hd
  have hlen := length_padded d
  have hmod := length_padded_mod d
  have hmem : (padded d).length ≤ (padded d ++ past).length := by simp
  rw [clearPadding, load_last]
  by_cases hone : 16 - d.length % 16 = 1
  · rw [load_eq (k := d.length - 1) (by omega) (by omega)]
    simp only [ok_bind]
    rw [if_pos (getD_last_ne hd hprint past).symm, hone, if_pos ⟨1, by decide⟩,
      store_eq (k := d.length) (by omega) (by omega)]
  · have hturns : ((padded d).length - ((padded d).length / 16 - 1) * 16 - 1 : ℤ).toNat = 15 := by
      omega
    rw [load_eq (k := (padded d).length - 2) (by omega) (by omega),
      getD_count past (by omega) (by omega)]
    simp only [ok_bind, ne_eq, not_true, if_false, hturns]
    exact clearLoop_padded hd hprint past 15 2 (by decide) (by decide) (by omega)

end Padded

theorem takeWhile_ne_zero_append {d : Bytes} (hd : 0 ∉ d) (rest : Bytes) :
    (d ++ rest).takeWhile (· ≠ 0) = d ++ rest.takeWhile (· ≠ 0) := by
  rw [List.takeWhile_append_of_pos]
  intro c hc
  have hne : c ≠ 0 := fun h => hd (h ▸ hc)
  simpa using hne

theorem cString_append {d : Bytes} (hd : 0 ∉ d) (rest : Bytes) : cString (d ++ 0 :: rest) = .ok d := by
  rw [cString, if_pos (by simp), takeWhile_ne_zero_append hd]
  simp

/-! ## The client's side -/

theorem stringToHex_some {s : Bytes} (hs : 0 ∉ s) : stringToHex (some s) = padding (s.take 16) := by
  have hall := takeWhile_ne_zero_append hs []
  rw [List.takeWhile_nil, List.append_nil] at hall
  rw [stringToHex, Option.getD_some, hall]

theorem padding_of_length {s : Bytes} (hs : s.length = 16) : padding s = s := by
  simp [padding, hs]

/-- Sixteen characters in front are one block. -/
theorem padded_of_le {s : Bytes} (hs : 16 ≤ s.length) : padded s = s.take 16 ++ padded (s.drop 16) := by
  have hmod : (s.length - 16) % 16 = s.length % 16 := by omega
  rw [padded, padded, List.length_drop, hmod, ← List.append_assoc, List.take_append_drop]

theorem padded_of_lt {s : Bytes} (hs : s.length < 16) : padded s = padding s := by
  rw [padded, padding, Nat.mod_eq_of_lt hs]

section Client
variable {aes : Bytes → Bytes} (haes : ∀ b, (aes b).length = 16)
include haes

theorem length_encryptLoop (s : Bytes) : (encryptLoop aes s).length = (s.length + 15) / 16 * 16 := by
  fun_induction encryptLoop aes s with
  | case1 => rfl
  | case2 s hne ih =>
    have hpos := List.length_pos_iff.mpr hne
    rw [List.length_append, haes, ih, List.length_drop]
    omega

theorem encryptBlocks_of_le {s : Bytes} (hs : 16 ≤ s.length) :
    encryptBlocks aes s = aes (stringToHex (some s)) ++ encryptBlocks aes (s.drop 16) := by
  have hne : s ≠ [] := List.ne_nil_of_length_pos (by omega)
  have hloop : encryptLoop aes s = aes (stringToHex (some s)) ++ encryptLoop aes (s.drop 16) := by
    rw [encryptLoop, if_neg hne]
  have hcond : (encryptLoop aes s).length < s.length / 16 * 16 + 16 ↔
      (encryptLoop aes (s.drop 16)).length < (s.drop 16).length / 16 * 16 + 16 := by
    rw [length_encryptLoop haes, length_encryptLoop haes, List.length_drop]
    omega
  simp only [encryptBlocks, hcond]
  split
  · rw [hloop, List.append_assoc]
  · exact hloop

theorem encryptBlocks_of_lt {s : Bytes} (hs : s.length < 16) (hnul : 0 ∉ s) :
    encryptBlocks aes s = aes (padding s) := by
  have hlen := length_encryptLoop haes s
  by_cases hne : s = []
  · subst hne
    rw [encryptBlocks, if_pos (by rw [hlen]; decide), encryptLoop, if_pos rfl]
    rfl
  · have hpos := List.length_pos_iff.mpr hne
    simp only [encryptBlocks]
    rw [if_neg (by omega), encryptLoop, if_neg hne, List.drop_of_length_le hs.le, encryptLoop,
      if_pos rfl, List.append_nil, stringToHex_some hnul, List.take_of_length_le hs.le]

/-- The client pads as PKCS5 does, and encrypts block by block. -/
theorem encryptBlocks_eq (iv s : Bytes) (hs : 0 ∉ s) :
    encryptBlocks aes s = blockLoop aes false ((padded s).length / 16) iv (padded s) := by
  -- block by block; a rest shorter than a block, also an empty one, is padded
  induction hn : s.length using Nat.strong_induction_on generalizing s with
  | _ n ih =>
    by_cases hle : 16 ≤ s.length
    · have htake : (s.take 16).length = 16 := by simp [hle]
      have hround : (16 + (padded (s.drop 16)).length) / 16 = (padded (s.drop 16)).length / 16 + 1 := by
        omega
      rw [encryptBlocks_of_le haes hle, padded_of_le hle, List.length_append, htake, hround,
        ih _ (by simp; omega) (s.drop 16) (fun h => hs (List.mem_of_mem_drop h)) rfl,
        stringToHex_some hs, padding_of_length htake, blockLoop_ecb_succ, List.take_left' htake,
        List.drop_left' htake]
    · have hlen : (padding s).length = 16 := by
        simp [padding]
        omega
      rw [encryptBlocks_of_lt haes (by omega) hs, padded_of_lt (by omega), blockLoop_one aes iv hlen]

end Client

/-! ## The round trip -/

theorem padded_eq_cons (d : Bytes) : ∃ c rest, padded d = d ++ c :: rest := by
  obtain ⟨k, hk⟩ : ∃ k, 16 - d.length % 16 = k + 1 := ⟨15 - d.length % 16, by omega⟩
  exact ⟨_, _, by rw [padded, hk, List.replicate_succ]⟩

/-- What `ClearPadding` and the terminator leave begins with the text. -/
theorem store_terminator {d past : Bytes} (hpast : past ≠ []) (hnul : 0 ∉ d) : ∃ mem,
    store ((padded d ++ past).set d.length 0) (padded d).length 0 = .ok mem ∧
      cString mem = .ok d := by
  have hlen := length_padded d
  have hpos := List.length_pos_iff.mpr hpast
  obtain ⟨c, rest, hrest⟩ := padded_eq_cons d
  obtain ⟨k, hk⟩ : ∃ k, (padded d).length = d.length + (k + 1) :=
    ⟨15 - d.length % 16, by omega⟩
  rw [store_eq rfl (by simp; omega), hk, hrest]
  refine ⟨_, rfl, ?_⟩
  rw [List.append_assoc, List.cons_append, List.set_append_right _ _ (Nat.le_refl _), Nat.sub_self,
    List.set_cons_zero, List.set_append_right _ _ (by omega), Nat.add_sub_cancel_left,
    List.set_cons_succ]
  exact cString_append hnul _

/-- The client sends the blocks of the padded text. -/
theorem decode_aesEcbEncrypt (ssl : OpenSsl) {d key : Bytes} (hd : 0 ∉ d) (hkey : key.length = 16)
    (hnul : 0 ∉ key) : Base64.decode (aesEcbEncrypt ssl d key) =
      blockLoop (ssl.aesEncrypt key) false ((padded d).length / 16) key (padded d) := by
  have hhex : stringToHex (some key) = key := by
    rw [stringToHex_some hnul, List.take_of_length_le hkey.le, padding_of_length hkey]
  rw [aesEcbEncrypt, Base64.decode_encode, hhex,
    encryptBlocks_eq (ssl.length_aesEncrypt key) key d hd]

/-- The server finds the text in these blocks. -/
theorem aesEcbDecrypt_blocks {ssl : OpenSsl} (hssl : ssl.Inverts) {accepts : Bytes → Bool}
    {d key past data : Bytes} (hd : d ≠ []) (hprint : ∀ c ∈ d, printable c) (haccepts : accepts d)
    (hkey : key.length = 16) (hpast : past ≠ []) (hdata : Base64.decode data =
      blockLoop (ssl.aesEncrypt key) false ((padded d).length / 16) key (padded d)) :
    aesEcbDecrypt ssl accepts past data key = .ok d := by
  have hmod := length_padded_mod d
  have hlen : (Base64.decode data).length = (padded d).length := by
    rw [hdata, length_blockLoop (ssl.length_aesEncrypt key) false _ _ _ hkey hmod.le, hmod]
  have hne : Base64.decode data ≠ [] := by
    have hpad := length_padded d
    exact List.ne_nil_of_length_pos (by omega)
  have hplain : blockLoop (ssl.aesDecrypt key) false ((padded d).length / 16) key
      (Base64.decode data) = padded d := by
    rw [hdata, blockLoop_ecb_cancel (ssl.length_aesEncrypt key) (fun b => hssl key b hkey) _ _ _ _
      hmod.symm]
  have hloop := decryptLoop_replicate (ssl.length_aesDecrypt key) (hlen ▸ hmod) past key
  rw [hlen, hplain] at hloop
  obtain ⟨mem, hstore, hstring⟩ := store_terminator hpast (zero_notMem_of_printable hprint)
  rw [aesEcbDecrypt, if_neg hne, if_neg (by simp [hkey]), hlen]
  simp only [hloop, clearPadding_padded hd hprint past, hstore, hstring, ok_bind]
  rw [if_pos haccepts]

/-- Any cipher whose blocks can be undone, any printable text, and one more byte behind `dst`. -/
theorem aesEcbDecrypt_aesEcbEncrypt (ssl : OpenSsl) (hssl : ssl.Inverts) (accepts : Bytes → Bool)
    (haccepts : ∀ s, s ≠ [] → (∀ c ∈ s, printable c) → accepts s) {d key past : Bytes} (hd : d ≠ [])
    (hprint : ∀ c ∈ d, printable c) (hkey : key.length = 16) (hnul : 0 ∉ key) (hpast : past ≠ []) :
    aesEcbDecrypt ssl accepts past (aesEcbEncrypt ssl d key) key = .ok d := by
  have hdata := decode_aesEcbEncrypt ssl (zero_notMem_of_printable hprint) hkey hnul
  exact aesEcbDecrypt_blocks hssl hd hprint (haccepts d hd hprint) hkey hpast hdata

theorem builtinAes_inverts : builtinAes.Inverts := fun key block _ => aes128EcbDecrypt_encrypt key block

theorem aesEcbDecrypt_aesEcbEncrypt_hello :
    aesEcbDecrypt builtinAes (fun s => s.all printable) [255]
      (aesEcbEncrypt builtinAes (Http.ascii "hello") (Http.ascii "0123456789abcdef"))
      (Http.ascii "0123456789abcdef") = .ok (Http.ascii "hello") :=
  aesEcbDecrypt_aesEcbEncrypt builtinAes builtinAes_inverts _
    (fun _ _ hprint => List.all_eq_true.mpr hprint) (by decide) (by decide +kernel) (by decide)
    (by decide) (by decide)

/-! ## With room for the terminator

What else can leave the buffers if `dst` has one byte more than the decoded source. -/

section Bounds
variable {mem : Bytes}

/-- Behind more than one block each turn stays inside. -/
theorem clearLoop_ok {n turns i : ℕ} (hmem : n ≤ mem.length) (hi : 1 ≤ i) (hn : i + turns ≤ n) :
    ∃ mem', clearLoop mem n turns i = .ok mem' := by
  induction turns generalizing i with
  | zero => exact ⟨mem, rfl⟩
  | succ turns ih =>
    rw [clearLoop, load_eq (k := n - 1) (by omega) (by omega),
      load_eq (k := n - 1 - i) (by omega) (by omega)]
    simp only [ok_bind]
    split
    · rw [store_eq (k := n - i) (by omega) (by omega)]
      exact ⟨_, rfl⟩
    · exact_mod_cast ih (i := i + 1) (by omega) (by omega)

/-- In a single block the last turn compares with the byte in front of it. -/
theorem clearLoop_block_ok_iff {turns i : ℕ} (hmem : 16 ≤ mem.length) (hi : i + turns = 17)
    (hi1 : 1 ≤ i) (hi16 : i ≤ 16) :
    (∃ mem', clearLoop mem 16 turns i = .ok mem') ↔
      ∃ k, i ≤ k ∧ k < 16 ∧ mem.getD 15 0 ≠ mem.getD (15 - k) 0 := by
  induction turns generalizing i with
  | zero => omega
  | succ turns ih =>
    rw [clearLoop, load_eq (k := 15) (by omega) (by omega)]
    rcases hi16.eq_or_lt with rfl | hlt
    · -- `pSrc[16 - 1 - 16]`
      have hfault : load mem (16 - 1 - (16 : ℕ)) = .error .dst := by
        rw [load, if_neg (by omega)]
      rw [hfault]
      simp only [ok_bind, error_bind, reduceCtorEq, exists_false, false_iff]
      rintro ⟨k, hk, hk', -⟩
      omega
    · rw [load_eq (k := 15 - i) (by omega) (by omega)]
      simp only [ok_bind]
      split
      next hne =>
        rw [store_eq (k := 16 - i) (by omega) (by omega)]
        exact iff_of_true ⟨_, rfl⟩ ⟨i, le_rfl, hlt, hne⟩
      next heq =>
        have hnext := ih (i := i + 1) (by omega) (by omega) (by omega)
        rw [Nat.cast_add, Nat.cast_one] at hnext
        rw [hnext]
        constructor
        · rintro ⟨k, hk, hk16, hne⟩
          exact ⟨k, by omega, hk16, hne⟩
        · rintro ⟨k, hk, hk16, hne⟩
          rcases hk.eq_or_lt with rfl | hk
          · exact absurd hne heq
          · exact ⟨k, hk, hk16, hne⟩

/-- Sixteen bytes that are all equal to the last. -/
theorem eq_replicate_iff {text : Bytes} (past : Bytes) (h : text.length = 16) :
    (∃ x, text = List.replicate 16 x) ↔
      ∀ k < 16, (text ++ past).getD 15 0 = (text ++ past).getD (15 - k) 0 := by
  constructor
  · rintro ⟨x, rfl⟩ k hk
    rw [List.getD_append _ _ _ _ (by omega), List.getD_append _ _ _ _ (by omega),
      List.getD_eq_getElem _ _ (by omega), List.getD_eq_getElem _ _ (by omega),
      List.getElem_replicate, List.getElem_replicate]
  · intro heq
    refine ⟨(text ++ past).getD 15 0, List.eq_replicate_iff.mpr ⟨h, fun c hc => ?_⟩⟩
    obtain ⟨k, hk, rfl⟩ := List.getElem_of_mem hc
    rw [heq (15 - k) (by omega), List.getD_append _ _ _ _ (by omega),
      List.getD_eq_getElem _ _ (by omega)]
    congr 1
    omega

/-- On whole blocks `ClearPadding` leaves the buffer exactly on one block of equal bytes. -/
theorem clearPadding_ok_iff {text : Bytes} (past : Bytes) (hpos : 0 < text.length)
    (hdvd : 16 ∣ text.length) :
    (∃ mem', clearPadding (text ++ past) text.length = .ok mem') ↔
      ¬ (text.length = 16 ∧ ∃ x, text = List.replicate 16 x) := by
  have hmem : text.length ≤ (text ++ past).length := by simp
  have hturns : (text.length - (text.length / 16 - 1) * 16 - 1 : ℤ).toNat = 15 := by omega
  rw [clearPadding, load_eq (k := text.length - 1) (by omega) (by omega),
    load_eq (k := text.length - 2) (by omega) (by omega)]
  simp only [ok_bind, hturns]
  split
  next hne =>
    have hok : ∀ last : UInt8, ∃ mem', (if ∃ i < 16, last.toNat = i then
        store (text ++ past) (text.length - 1) 0 else .ok (text ++ past)) = .ok mem' := by
      intro last
      rw [store_eq (k := text.length - 1) (by omega) (by omega)]
      split <;> exact ⟨_, rfl⟩
    refine iff_of_true (hok _) ?_
    rintro ⟨hlen, heq⟩
    rw [eq_replicate_iff past hlen] at heq
    rw [hlen] at hne
    exact hne (heq 1 (by decide))
  next heq =>
    by_cases hlen : text.length = 16
    · have hloop := clearLoop_block_ok_iff (hlen ▸ hmem) (show 2 + 15 = 17 from rfl) (by decide)
        (by decide)
      rw [eq_replicate_iff past hlen]
      rw [hlen] at heq ⊢
      refine hloop.trans ?_
      simp only [true_and, not_forall]
      constructor
      · rintro ⟨k, -, hk, hne⟩
        exact ⟨k, hk, hne⟩
      · rintro ⟨k, hk, hne⟩
        -- the last two bytes were found equal
        have hk0 : k ≠ 0 := fun h => hne (by rw [h])
        have hk1 : k ≠ 1 := fun h => hne (by rw [h]; exact not_not.mp heq)
        exact ⟨k, by omega, hk, hne⟩
    · refine iff_of_true ?_ fun h => hlen h.1
      exact clearLoop_ok (i := 2) hmem (by decide) (by omega)

end Bounds

theorem cString_ok {mem : Bytes} (h : 0 ∈ mem) : ∃ s, cString mem = .ok s :=
  ⟨_, by rw [cString, if_pos h]⟩

/-- With the terminator inside, two inputs are left that are not handled safely: a source that
does not consist of whole blocks, and one block that decrypts to equal bytes. -/
theorem aesEcbDecrypt_past_ok_iff (ssl : OpenSsl) (accepts : Bytes → Bool) {key past : Bytes}
    (hkey : key.length = 16) (hpast : past ≠ []) (data : Bytes) :
    (∃ s, aesEcbDecrypt ssl accepts past data key = .ok s) ↔
      16 ∣ (Base64.decode data).length ∧ ¬ ((Base64.decode data).length = 16 ∧
        ∃ x, ssl.aesDecrypt key (Base64.decode data) = List.replicate 16 x) := by
  generalize hsrc : Base64.decode data = src
  by_cases hne : src = []
  · subst hne
    refine iff_of_true ⟨[], by rw [aesEcbDecrypt, hsrc, if_pos rfl]⟩ (by simp)
  have hpos := List.length_pos_iff.mpr hne
  rw [aesEcbDecrypt, hsrc, if_neg hne, if_neg (by simp [hkey])]
  by_cases hdvd : 16 ∣ src.length
  · have hmod : 16 * (src.length / 16) = src.length := Nat.mul_div_cancel' hdvd
    have hlen := length_blockLoop (ssl.length_aesDecrypt key) false _ key src hkey hmod.le
    rw [hmod] at hlen
    have hloop := decryptLoop_replicate (ssl.length_aesDecrypt key) hmod past key
    have hclear := clearPadding_ok_iff past (hlen.symm ▸ hpos) (hlen.symm ▸ hdvd)
    rw [hlen] at hclear
    simp only [hloop, ok_bind]
    constructor
    · rintro ⟨s, h⟩
      obtain ⟨mem, hmem, -⟩ := bind_eq_ok_iff.mp h
      refine ⟨hdvd, fun hequal => hclear.mp ⟨mem, hmem⟩ ⟨hequal.1, ?_⟩⟩
      rw [blockLoop_one _ _ hequal.1]
      exact hequal.2
    · rintro ⟨-, hunequal⟩
      obtain ⟨mem, hmem⟩ := hclear.mpr fun h =>
        hunequal ⟨h.1, by rw [← blockLoop_one (ssl.aesDecrypt key) key h.1]; exact h.2⟩
      have hmlen := length_of_clearPadding hmem
      have hroom : src.length < mem.length := by
        have hpast := List.length_pos_iff.mpr hpast
        rw [hmlen, List.length_append, hlen]
        omega
      obtain ⟨s, hs⟩ := cString_ok (List.mem_set hroom 0)
      exact ⟨if accepts s then s else [], by simp only [hmem, store_eq rfl hroom, hs, ok_bind]⟩
  · refine iff_of_false ?_ fun h => hdvd h.1
    rintro ⟨s, h⟩
    obtain ⟨out, hloop, -⟩ := bind_eq_ok_iff.mp h
    exact hdvd (decryptLoop_ok (ssl.length_aesDecrypt key) hloop).2.2

end LibWebsocket.Crypto

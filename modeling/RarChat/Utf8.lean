import RarChat.Text

/-!
# Strict decoding is exact

`std::str::from_utf8` accepts exactly the byte sequences that are the bytes of a text,
and returns that text (`fromUtf8_eq_ok_iff_asBytes`).  Each character of the text is one
turn of the validation loop from between characters back to between characters, so both
directions are about what one character is read as (`run_utf8Step_encode`,
`encode_of_run`).

ASCII bytes stand for themselves, in any text: cutting at them cuts between characters
(`wellFormed_append_iff`).
-/

namespace RarChat

open EarlyExit

/-! ## Passes of the validation loop -/

variable {n : ℕ} {b : UInt8} {bytes : List UInt8} {p : Utf8Pending}

theorem run_utf8Step_of_ascii (ascii : b < 0x80) :
    run utf8Step ⟨n, none⟩ (b :: bytes) =
      (run utf8Step ⟨n + 1, none⟩ bytes).after [Char.ofNat b.toNat] := by
  have hstep : utf8Step ⟨n, none⟩ b = ⟨⟨n + 1, none⟩, [Char.ofNat b.toNat], none⟩ := by
    simp [utf8Step, ascii]
  rw [run_cons_of_running _ (by rw [hstep]), hstep]

theorem utf8Lead_range (lead : utf8Lead b = some p) :
    0xC2 ≤ b.toNat ∧ b.toNat ≤ 0xF4 := by
  unfold utf8Lead at lead
  simp only [UInt8.le_iff_toNat_le, ← UInt8.toNat_inj, UInt8.reduceToNat] at lead
  split_ifs at lead <;> omega

theorem run_utf8Step_of_lead (lead : utf8Lead b = some p) :
    run utf8Step ⟨n, none⟩ (b :: bytes) = run utf8Step ⟨n, some p⟩ bytes := by
  have hhigh : ¬b < 0x80 := by
    have hrange := utf8Lead_range lead
    simp only [UInt8.lt_iff_toNat_lt, UInt8.reduceToNat]
    omega
  have hstep : utf8Step ⟨n, none⟩ b = ⟨⟨n, some p⟩, [], none⟩ := by
    simp [utf8Step, hhigh, lead]
  rw [run_cons_of_running _ (by rw [hstep]), hstep]
  rfl

theorem run_utf8Step_of_more (range : p.low ≤ b ∧ b ≤ p.high) (more : p.owed ≠ 1) :
    run utf8Step ⟨n, some p⟩ (b :: bytes) =
      run utf8Step
        ⟨n, some ⟨p.code * 64 + b.toNat % 64, p.seen + 1, p.owed - 1, 0x80, 0xBF⟩⟩
        bytes := by
  have hstep : utf8Step ⟨n, some p⟩ b =
      ⟨⟨n, some ⟨p.code * 64 + b.toNat % 64, p.seen + 1, p.owed - 1, 0x80, 0xBF⟩⟩, [],
        none⟩ := by
    simp [utf8Step, range, more]
  rw [run_cons_of_running _ (by rw [hstep]), hstep]
  rfl

theorem run_utf8Step_of_last (range : p.low ≤ b ∧ b ≤ p.high) (last : p.owed = 1) :
    run utf8Step ⟨n, some p⟩ (b :: bytes) =
      (run utf8Step ⟨n + p.seen + 1, none⟩ bytes).after
        [Char.ofNat (p.code * 64 + b.toNat % 64)] := by
  have hstep : utf8Step ⟨n, some p⟩ b =
      ⟨⟨n + p.seen + 1, none⟩, [Char.ofNat (p.code * 64 + b.toNat % 64)], none⟩ := by
    simp [utf8Step, range, last]
  rw [run_cons_of_running _ (by rw [hstep]), hstep]

/-! ## First and later bytes -/

/-- The byte that carries the six bits `j`. -/
def tailByte (j : ℕ) : UInt8 := .ofNat (j + 0x80)

theorem tailByte_toNat {j : ℕ} (fits : j < 64) : (tailByte j).toNat = j + 0x80 :=
  UInt8.toNat_ofNat_of_lt' (show j + 0x80 < 256 by omega)

theorem tailByte_mod {j : ℕ} (fits : j < 64) : (tailByte j).toNat % 64 = j := by
  rw [tailByte_toNat fits]
  omega

theorem tailByte_between {j : ℕ} (fits : j < 64) {low high : UInt8}
    (h : low.toNat ≤ j + 0x80 ∧ j + 0x80 ≤ high.toNat) :
    low ≤ tailByte j ∧ tailByte j ≤ high := by
  rwa [UInt8.le_iff_toNat_le, UInt8.le_iff_toNat_le, tailByte_toNat fits]

theorem utf8Lead_two : ∀ k < 32, 2 ≤ k →
    utf8Lead (.ofNat (k + 0xc0)) = some ⟨k, 1, 1, 0x80, 0xBF⟩ := by
  decide

theorem utf8Lead_three : ∀ k < 16,
    utf8Lead (.ofNat (k + 0xe0)) =
      some ⟨k, 1, 2, if k = 0 then 0xA0 else 0x80, if k = 13 then 0x9F else 0xBF⟩ := by
  decide

theorem utf8Lead_four : ∀ k < 5,
    utf8Lead (.ofNat (k + 0xf0)) =
      some ⟨k, 1, 3, if k = 0 then 0x90 else 0x80, if k = 4 then 0x8F else 0xBF⟩ := by
  decide

/-! ## The bytes of a character -/

/-- **The bytes of the code point `v`**, shortest form, no surrogates, up to `0x10FFFF`. -/
inductive CharBytes : ℕ → List UInt8 → Prop
  | one {a : ℕ} (ascii : a < 128) : CharBytes a [.ofNat a]
  | two {k j : ℕ} (hk : k < 32) (hj : j < 64) (short : 2 ≤ k) :
      CharBytes (k * 64 + j) [.ofNat (k + 0xc0), tailByte j]
  | three {k i j : ℕ} (hk : k < 16) (hi : i < 64) (hj : j < 64) (short : k = 0 → 32 ≤ i)
      (scalar : k = 13 → i < 32) :
      CharBytes ((k * 64 + i) * 64 + j) [.ofNat (k + 0xe0), tailByte i, tailByte j]
  | four {k h i j : ℕ} (hk : k < 5) (hh : h < 64) (hi : i < 64) (hj : j < 64)
      (short : k = 0 → 16 ≤ h) (scalar : k = 4 → h < 16) :
      CharBytes (((k * 64 + h) * 64 + i) * 64 + j)
        [.ofNat (k + 0xf0), tailByte h, tailByte i, tailByte j]

theorem CharBytes.valid {v : ℕ} {bs : List UInt8} (h : CharBytes v bs) : v.isValidChar := by
  cases h with
  | one ascii => exact .inl (by omega)
  | two hk hj short => exact .inl (by omega)
  | @three k i j hk hi hj short scalar =>
      have hgap : (k * 64 + i) * 64 + j < 0xd800 ∨ 0xdfff < (k * 64 + i) * 64 + j := by omega
      exact hgap.imp_right fun h => ⟨h, by omega⟩
  | four hk hh hi hj short scalar => exact .inr (by omega)

/-- They are what the code point is encoded as. -/
theorem CharBytes.encode {v : ℕ} {bs : List UInt8} (h : CharBytes v bs) :
    String.utf8EncodeChar (Char.ofNat v) = bs := by
  have hval : (Char.ofNat v).val.toNat = v := by
    rw [Char.ofNat, dif_pos h.valid]
    rfl
  unfold String.utf8EncodeChar
  rw [hval]
  dsimp only
  cases h with
  | one ascii => rw [if_pos (by omega)]
  | @two k j hk hj short =>
      have h1 : (k * 64 + j) / 64 % 32 = k := by omega
      have h2 : (k * 64 + j) % 64 = j := by omega
      rw [if_neg (by omega), if_pos (by omega), h1, h2]
      rfl
  | @three k i j hk hi hj short scalar =>
      have h1 : ((k * 64 + i) * 64 + j) / 4096 % 16 = k := by omega
      have h2 : ((k * 64 + i) * 64 + j) / 64 % 64 = i := by omega
      have h3 : ((k * 64 + i) * 64 + j) % 64 = j := by omega
      rw [if_neg (by omega), if_neg (by omega), if_pos (by omega), h1, h2, h3]
      rfl
  | @four k h i j hk hh hi hj short scalar =>
      have h1 : (((k * 64 + h) * 64 + i) * 64 + j) / 262144 % 8 = k := by omega
      have h2 : (((k * 64 + h) * 64 + i) * 64 + j) / 4096 % 64 = h := by omega
      have h3 : (((k * 64 + h) * 64 + i) * 64 + j) / 64 % 64 = i := by omega
      have h4 : (((k * 64 + h) * 64 + i) * 64 + j) % 64 = j := by omega
      rw [if_neg (by omega), if_neg (by omega), if_neg (by omega), h1, h2, h3, h4]
      rfl

theorem exists_charBytes (c : Char) : ∃ bs, CharBytes c.toNat bs := by
  have hvalid : c.toNat < 0xD800 ∨ 0xDFFF < c.toNat ∧ c.toNat < 0x110000 := c.valid
  generalize c.toNat = v at hvalid
  by_cases hone : v < 128
  · exact ⟨_, .one hone⟩
  by_cases htwo : v < 2048
  · have hv : v = v / 64 * 64 + v % 64 := by omega
    rw [hv]
    exact ⟨_, .two (by omega) (by omega) (by omega)⟩
  by_cases hthree : v < 65536
  · have hv : v = (v / 4096 * 64 + v / 64 % 64) * 64 + v % 64 := by omega
    rw [hv]
    exact ⟨_, .three (by omega) (by omega) (by omega) (by omega) (by omega)⟩
  · have hv : v = ((v / 262144 * 64 + v / 4096 % 64) * 64 + v / 64 % 64) * 64 + v % 64 := by
      omega
    rw [hv]
    exact ⟨_, .four (by omega) (by omega) (by omega) (by omega) (by omega) (by omega)⟩

/-- The bytes of a character are the ones it is encoded as. -/
theorem charBytes_encode (c : Char) : CharBytes c.toNat (String.utf8EncodeChar c) := by
  obtain ⟨bs, hbs⟩ := exists_charBytes c
  have hencode := hbs.encode
  rw [Char.ofNat_toNat] at hencode
  rwa [hencode]

/-! ## What they are read as -/

/-- **A character is read from its bytes**, and the loop is between characters again. -/
theorem CharBytes.run {v : ℕ} {bs : List UInt8} (h : CharBytes v bs) (n : ℕ)
    (bytes : List UInt8) :
    run utf8Step ⟨n, none⟩ (bs ++ bytes) =
      (run utf8Step ⟨n + bs.length, none⟩ bytes).after [Char.ofNat v] := by
  cases h with
  | one ascii =>
      have hbyte := UInt8.toNat_ofNat_of_lt' (Nat.lt_of_lt_of_le ascii (by decide : 128 ≤ 256))
      have hascii : UInt8.ofNat v < 0x80 := by
        rw [UInt8.lt_iff_toNat_lt, hbyte]
        exact ascii
      rw [List.singleton_append, run_utf8Step_of_ascii hascii, hbyte]
      rfl
  | @two k j hk hj short =>
      have hlast : (0x80 : UInt8) ≤ tailByte j ∧ tailByte j ≤ 0xBF :=
        tailByte_between hj ⟨by simp, by simp; omega⟩
      simp only [List.cons_append, List.nil_append]
      rw [run_utf8Step_of_lead (utf8Lead_two _ hk short), run_utf8Step_of_last hlast rfl,
        tailByte_mod hj]
      rfl
  | @three k i j hk hi hj short scalar =>
      have hfirst : (if k = 0 then 0xA0 else 0x80 : UInt8) ≤ tailByte i ∧
          tailByte i ≤ (if k = 13 then 0x9F else 0xBF : UInt8) :=
        tailByte_between hi
          ⟨by split_ifs <;> simp; omega, by split_ifs <;> simp <;> omega⟩
      have hlast : (0x80 : UInt8) ≤ tailByte j ∧ tailByte j ≤ 0xBF :=
        tailByte_between hj ⟨by simp, by simp; omega⟩
      simp only [List.cons_append, List.nil_append]
      rw [run_utf8Step_of_lead (utf8Lead_three _ hk), run_utf8Step_of_more hfirst (by simp),
        run_utf8Step_of_last hlast rfl]
      simp only [tailByte_mod hi, tailByte_mod hj]
      rfl
  | @four k h i j hk hh hi hj short scalar =>
      have hfirst : (if k = 0 then 0x90 else 0x80 : UInt8) ≤ tailByte h ∧
          tailByte h ≤ (if k = 4 then 0x8F else 0xBF : UInt8) :=
        tailByte_between hh
          ⟨by split_ifs <;> simp; omega, by split_ifs <;> simp <;> omega⟩
      have hnext : (0x80 : UInt8) ≤ tailByte i ∧ tailByte i ≤ 0xBF :=
        tailByte_between hi ⟨by simp, by simp; omega⟩
      have hlast : (0x80 : UInt8) ≤ tailByte j ∧ tailByte j ≤ 0xBF :=
        tailByte_between hj ⟨by simp, by simp; omega⟩
      simp only [List.cons_append, List.nil_append]
      rw [run_utf8Step_of_lead (utf8Lead_four _ hk), run_utf8Step_of_more hfirst (by simp),
        run_utf8Step_of_more hnext (by simp), run_utf8Step_of_last hlast rfl]
      simp only [tailByte_mod hh, tailByte_mod hi, tailByte_mod hj]
      rfl

/-! ## What is read is a character -/

theorem utf8Lead_cases (lead : utf8Lead b = some p) :
    (∃ k, k < 32 ∧ 2 ≤ k ∧ b = .ofNat (k + 0xc0)) ∨ (∃ k, k < 16 ∧ b = .ofNat (k + 0xe0)) ∨
      ∃ k, k < 5 ∧ b = .ofNat (k + 0xf0) := by
  have hbyte : ∀ m, m ≤ b.toNat → b = .ofNat (b.toNat - m + m) := by
    intro m hm
    rw [Nat.sub_add_cancel hm, UInt8.ofNat_toNat]
  have hrange := utf8Lead_range lead
  by_cases htwo : b.toNat < 0xe0
  · exact .inl ⟨b.toNat - 0xc0, by omega, by omega, hbyte _ (by omega)⟩
  by_cases hthree : b.toNat < 0xf0
  · exact .inr (.inl ⟨b.toNat - 0xe0, by omega, hbyte _ (by omega)⟩)
  · exact .inr (.inr ⟨b.toNat - 0xf0, by omega, hbyte _ (by omega)⟩)

/-- A run that ends between characters finds what is owed in a character that is open. -/
theorem exists_tailByte_of_run (running : (run utf8Step ⟨n, some p⟩ bytes).stop = none)
    (settled : (run utf8Step ⟨n, some p⟩ bytes).state.pending = none)
    (low : 0x80 ≤ p.low) (high : p.high ≤ 0xBF) :
    ∃ j rest, bytes = tailByte j :: rest ∧ j < 64 ∧ p.low.toNat ≤ j + 0x80 ∧
      j + 0x80 ≤ p.high.toNat := by
  cases bytes with
  | nil => cases settled
  | cons b rest =>
      have hrange : p.low ≤ b ∧ b ≤ p.high := by
        by_contra hout
        have hstep : (utf8Step ⟨n, some p⟩ b).stop = some ⟨n, some p.seen⟩ := by
          simp [utf8Step, hout]
        rw [(run_cons_running _ running).1] at hstep
        cases hstep
      obtain ⟨hlow, hhigh⟩ := hrange
      simp only [UInt8.le_iff_toNat_le, UInt8.reduceToNat] at low high hlow hhigh
      refine ⟨b.toNat - 0x80, rest, ?_, by omega, by omega, by omega⟩
      rw [tailByte, Nat.sub_add_cancel (by omega), UInt8.ofNat_toNat]

/-- **What is read is a character**: a run that ends between characters starts with the
bytes of one. -/
theorem exists_charBytes_of_run
    (running : (run utf8Step ⟨n, none⟩ (b :: bytes)).stop = none)
    (settled : (run utf8Step ⟨n, none⟩ (b :: bytes)).state.pending = none) :
    ∃ v bs rest, CharBytes v bs ∧ b :: bytes = bs ++ rest := by
  by_cases hascii : b < 0x80
  · have hb := UInt8.lt_iff_toNat_lt.mp hascii
    refine ⟨b.toNat, [b], bytes, ?_, rfl⟩
    have hone : CharBytes b.toNat [.ofNat b.toNat] := .one hb
    rwa [UInt8.ofNat_toNat] at hone
  cases hlead : utf8Lead b with
  | none =>
      have hstep : (utf8Step ⟨n, none⟩ b).stop = some ⟨n, some 1⟩ := by
        simp [utf8Step, hascii, hlead]
      rw [(run_cons_running _ running).1] at hstep
      cases hstep
  | some p =>
      rcases utf8Lead_cases hlead with ⟨k, hk, hshort, rfl⟩ | ⟨k, hk, rfl⟩ | ⟨k, hk, rfl⟩
      · rw [run_utf8Step_of_lead (utf8Lead_two k hk hshort)] at running settled
        obtain ⟨j, rest, rfl, hj, -⟩ :=
          exists_tailByte_of_run running settled (by simp) (by simp)
        exact ⟨_, _, rest, .two hk hj hshort, rfl⟩
      · rw [run_utf8Step_of_lead (utf8Lead_three k hk)] at running settled
        obtain ⟨i, rest, rfl, hi, hlow, hhigh⟩ :=
          exists_tailByte_of_run running settled (by split_ifs <;> simp)
            (by split_ifs <;> simp)
        have hfirst := tailByte_between hi ⟨hlow, hhigh⟩
        rw [run_utf8Step_of_more hfirst (by simp)] at running settled
        obtain ⟨j, rest, rfl, hj, -⟩ :=
          exists_tailByte_of_run running settled (by simp) (by simp)
        refine ⟨_, _, rest, .three hk hi hj (fun h => ?_) (fun h => ?_), rfl⟩
        · simp only [h, if_true, UInt8.reduceToNat] at hlow
          omega
        · simp only [h, if_true, UInt8.reduceToNat] at hhigh
          omega
      · rw [run_utf8Step_of_lead (utf8Lead_four k hk)] at running settled
        obtain ⟨h, rest, rfl, hh, hlow, hhigh⟩ :=
          exists_tailByte_of_run running settled (by split_ifs <;> simp)
            (by split_ifs <;> simp)
        have hfirst := tailByte_between hh ⟨hlow, hhigh⟩
        rw [run_utf8Step_of_more hfirst (by simp)] at running settled
        obtain ⟨i, rest, rfl, hi, hlow', hhigh'⟩ :=
          exists_tailByte_of_run running settled (by simp) (by simp)
        have hnext := tailByte_between hi ⟨hlow', hhigh'⟩
        rw [run_utf8Step_of_more hnext (by simp)] at running settled
        obtain ⟨j, rest, rfl, hj, -⟩ :=
          exists_tailByte_of_run running settled (by simp) (by simp)
        refine ⟨_, _, rest, .four hk hh hi hj (fun h => ?_) (fun h => ?_), rfl⟩
        · simp only [h, if_true, UInt8.reduceToNat] at hlow
          omega
        · simp only [h, if_true, UInt8.reduceToNat] at hhigh
          omega

/-! ## Texts -/

/-- A text is read back from its bytes. -/
theorem run_utf8Step_encode (n : ℕ) (cs : List Char) :
    run utf8Step ⟨n, none⟩ (cs.flatMap String.utf8EncodeChar) =
      ⟨⟨n + (cs.flatMap String.utf8EncodeChar).length, none⟩, cs, none⟩ := by
  induction cs generalizing n with
  | nil => rfl
  | cons c cs ih =>
      rw [List.flatMap_cons, (charBytes_encode c).run, ih, Char.ofNat_toNat,
        List.length_append, Nat.add_assoc]
      rfl

/-- What is read is the bytes of the text that is returned. -/
theorem encode_of_run (running : (run utf8Step ⟨n, none⟩ bytes).stop = none)
    (settled : (run utf8Step ⟨n, none⟩ bytes).state.pending = none) :
    bytes = (run utf8Step ⟨n, none⟩ bytes).out.flatMap String.utf8EncodeChar := by
  induction hlen : bytes.length using Nat.strongRecOn generalizing n bytes with
  | ind len ih =>
      cases bytes with
      | nil => rfl
      | cons b bytes =>
          obtain ⟨v, bs, rest, hbs, hsplit⟩ := exists_charBytes_of_run running settled
          have hshorter : rest.length < len := by
            have hpos : bs ≠ [] := by cases hbs <;> simp
            have hlength := congrArg List.length hsplit
            rw [List.length_append] at hlength
            have := List.length_pos_iff.mpr hpos
            omega
          rw [hsplit, hbs.run] at running settled
          rw [hsplit, hbs.run, Outcome.after_out, List.flatMap_append, List.flatMap_singleton,
            hbs.encode]
          exact congrArg (bs ++ ·) (ih _ hshorter running settled rfl)

/-- **Strict decoding is exact.** -/
theorem fromUtf8_eq_ok_iff_asBytes {text : String} :
    fromUtf8 bytes = .ok text ↔ bytes = asBytes text := by
  rw [fromUtf8_eq_ok_iff, asBytes]
  constructor
  · rintro ⟨hrunning, hsettled, rfl⟩
    rw [String.toList_ofList]
    exact encode_of_run hrunning hsettled
  · rintro rfl
    rw [utf8Run, run_utf8Step_encode]
    exact ⟨rfl, rfl, (String.ofList_toList).symm⟩

theorem fromUtf8_asBytes (text : String) : fromUtf8 (asBytes text) = .ok text :=
  fromUtf8_eq_ok_iff_asBytes.mpr rfl

theorem asBytes_append (s t : String) : asBytes (s ++ t) = asBytes s ++ asBytes t := by
  rw [asBytes, String.toList_append, List.flatMap_append]
  rfl

/-! ## Cutting at ASCII bytes -/

/-- **Well-formed UTF-8**: the bytes of a text. -/
def WellFormed (bytes : List UInt8) : Prop := ∃ text, bytes = asBytes text

theorem wellFormed_iff : WellFormed bytes ↔ ∃ text, fromUtf8 bytes = .ok text :=
  exists_congr fun _ => fromUtf8_eq_ok_iff_asBytes.symm

theorem wellFormed_encode (cs : List Char) :
    WellFormed (cs.flatMap String.utf8EncodeChar) :=
  ⟨String.ofList cs, by rw [asBytes, String.toList_ofList]⟩

/-- An ASCII byte among the bytes of a character is that character. -/
theorem ofNat_of_mem_encode {c : Char} (mem : b ∈ String.utf8EncodeChar c)
    (ascii : b < 0x80) : Char.ofNat b.toNat = c := by
  have hbs := charBytes_encode c
  have htail : ∀ j < 64, b ≠ tailByte j := by
    rintro j hj rfl
    have hlow := UInt8.lt_iff_toNat_lt.mp ascii
    simp only [tailByte_toNat hj, UInt8.reduceToNat] at hlow
    omega
  have hlead : ∀ p, utf8Lead b ≠ some p := by
    intro p hp
    have hrange := utf8Lead_range hp
    have hlow := UInt8.lt_iff_toNat_lt.mp ascii
    simp only [UInt8.reduceToNat] at hlow
    omega
  generalize String.utf8EncodeChar c = bs at hbs mem
  generalize hv : c.toNat = v at hbs
  cases hbs with
  | one hascii =>
      rw [List.mem_singleton] at mem
      rw [mem, UInt8.toNat_ofNat_of_lt' (Nat.lt_of_lt_of_le hascii (by decide)), ← hv,
        Char.ofNat_toNat]
  | two hk hj short =>
      simp only [List.mem_cons, List.not_mem_nil, or_false] at mem
      rcases mem with rfl | rfl
      · exact absurd (utf8Lead_two _ hk short) (hlead _)
      · exact absurd rfl (htail _ hj)
  | three hk hi hj short scalar =>
      simp only [List.mem_cons, List.not_mem_nil, or_false] at mem
      rcases mem with rfl | rfl | rfl
      · exact absurd (utf8Lead_three _ hk) (hlead _)
      · exact absurd rfl (htail _ hi)
      · exact absurd rfl (htail _ hj)
  | four hk hh hi hj short scalar =>
      simp only [List.mem_cons, List.not_mem_nil, or_false] at mem
      rcases mem with rfl | rfl | rfl | rfl
      · exact absurd (utf8Lead_four _ hk) (hlead _)
      · exact absurd rfl (htail _ hh)
      · exact absurd rfl (htail _ hi)
      · exact absurd rfl (htail _ hj)

/-- Where ASCII follows, the bytes before it end between characters, if the loop goes
on. -/
theorem settled_of_ascii {xs : List UInt8} {c : UInt8} (ascii : c < 0x80)
    (running : (utf8Run (xs ++ c :: bytes)).stop = none) :
    (utf8Run xs).stop = none ∧ (utf8Run xs).state.pending = none := by
  rw [utf8Run_append] at running
  cases hstop : (utf8Run xs).stop with
  | some e =>
      rw [Outcome.andThen_of_stop hstop, hstop] at running
      cases running
  | none =>
      refine ⟨rfl, ?_⟩
      rw [Outcome.andThen_of_running hstop, Outcome.after_stop] at running
      cases hpending : (utf8Run xs).state.pending with
      | none => rfl
      | some p =>
          -- a character that is open takes no ASCII byte
          have hlow := utf8Run_continues xs p hpending
          have hbad : ¬(p.low ≤ c ∧ c ≤ p.high) := fun h =>
            absurd (UInt8.lt_of_lt_of_le ascii (UInt8.le_trans hlow h.1)) (UInt8.lt_irrefl c)
          have hstep : (utf8Step (utf8Run xs).state c).stop =
              some ⟨(utf8Run xs).state.validUpTo, some p.seen⟩ := by
            simp [utf8Step, hpending, hbad]
          rw [(run_cons_running _ running).1] at hstep
          cases hstep

/-- **Cutting at ASCII bytes cuts between characters.** -/
theorem wellFormed_append_iff {xs sep ys : List UInt8} (ascii : ∀ c ∈ sep, c < 0x80)
    (nonempty : sep ≠ []) :
    WellFormed (xs ++ (sep ++ ys)) ↔ WellFormed xs ∧ WellFormed ys := by
  constructor
  · intro h
    obtain ⟨text, htext⟩ := wellFormed_iff.mp h
    obtain ⟨hrunning, hsettled, -⟩ := fromUtf8_eq_ok_iff.mp htext
    obtain ⟨c, more, rfl⟩ := List.exists_cons_of_ne_nil nonempty
    obtain ⟨hstop, hpending⟩ := settled_of_ascii (ascii c List.mem_cons_self) hrunning
    have hxs : fromUtf8 xs = .ok _ := fromUtf8_eq_ok_iff.mpr ⟨hstop, hpending, rfl⟩
    refine ⟨wellFormed_iff.mpr ⟨_, hxs⟩, ?_⟩
    have hstate : (utf8Run xs).state = ⟨(utf8Run xs).state.validUpTo, none⟩ := by
      rw [← hpending]
    rw [utf8Run_append, Outcome.andThen_of_running hstop, Outcome.after_stop, hstate,
      run_append, run_utf8Step_ascii _ ascii] at hrunning
    rw [utf8Run_append, Outcome.andThen_of_running hstop, Outcome.after_state, hstate,
      run_append, run_utf8Step_ascii _ ascii] at hsettled
    have hys := wellFormed_encode (run utf8Step
      ⟨(utf8Run xs).state.validUpTo + (c :: more).length, none⟩ ys).out
    rwa [← encode_of_run hrunning hsettled] at hys
  · rintro ⟨⟨s, rfl⟩, ⟨t, rfl⟩⟩
    have hsep := fromUtf8_append_ascii_of_ok (fromUtf8_asBytes s) ascii
    rw [fromUtf8_eq_ok_iff_asBytes] at hsep
    refine ⟨s ++ String.ofList (asciiText sep) ++ t, ?_⟩
    rw [asBytes_append, ← hsep, List.append_assoc]

end RarChat

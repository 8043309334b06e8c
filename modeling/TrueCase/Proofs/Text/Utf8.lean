import Mathlib.Data.List.Basic
import TrueCase.Text.Utf8

/-!
# Reading back what was written

The bytes of a text are read as that text again. Of the bytes of a file name, which can be anything,
the same holds as far as ASCII goes. Byte offsets and lines are counted on the bytes as on the text.

## Main statements

* `Utf8.decode?_encode`: a text is read back from its bytes.
* `Utf8.decode?_eq_some_iff`: it is read from no other bytes.
* `Utf8.encode_lossy_eq_iff`: which bytes are those of the text that is shown for them.
* `Utf8.mem_of_mem_lossy`: a character of ASCII is read from a byte of its own.
* `Utf8.eq_of_lossy_eq`: a text of ASCII is read from no bytes but its own.
* `Utf8.take_encode_append`: cutting the bytes of a text at the offset of a character.
* `Utf8.count_lineFeed_encode`: line feeds are counted on the bytes as on the text.
-/

namespace TrueCase.Utf8

/-! ## The first byte -/

section

variable {b : UInt8}

theorem Lead.ofByte?_eq (b : UInt8) : Lead.ofByte? b =
    if b.toNat < 0x80 then some ⟨0, 0x80, 0xBF⟩
    else if b.toNat < 0xC2 then none
    else if b.toNat < 0xE0 then some ⟨1, 0x80, 0xBF⟩
    else if b.toNat = 0xE0 then some ⟨2, 0xA0, 0xBF⟩
    else if b.toNat = 0xED then some ⟨2, 0x80, 0x9F⟩
    else if b.toNat < 0xF0 then some ⟨2, 0x80, 0xBF⟩
    else if b.toNat = 0xF0 then some ⟨3, 0x90, 0xBF⟩
    else if b.toNat < 0xF4 then some ⟨3, 0x80, 0xBF⟩
    else if b.toNat = 0xF4 then some ⟨3, 0x80, 0x8F⟩
    else none := by
  simp only [Lead.ofByte?, UInt8.lt_iff_toNat_lt, ← UInt8.toNat_inj]
  rfl

theorem Lead.ofByte?_one (h : b.toNat < 0x80) : Lead.ofByte? b = some ⟨0, 0x80, 0xBF⟩ := by
  rw [Lead.ofByte?_eq, if_pos h]

theorem Lead.ofByte?_two (h : 0xC2 ≤ b.toNat) (h' : b.toNat < 0xE0) :
    Lead.ofByte? b = some ⟨1, 0x80, 0xBF⟩ := by
  rw [Lead.ofByte?_eq, if_neg (by omega), if_neg (by omega), if_pos h']

theorem Lead.ofByte?_three (h : 0xE0 ≤ b.toNat) (h' : b.toNat < 0xF0) :
    ∃ low high, Lead.ofByte? b = some ⟨2, low, high⟩ ∧
      low.toNat = (if b.toNat = 0xE0 then 0xA0 else 0x80) ∧
      high.toNat = if b.toNat = 0xED then 0x9F else 0xBF := by
  rw [Lead.ofByte?_eq, if_neg (by omega), if_neg (by omega), if_neg (by omega)]
  by_cases he : b.toNat = 0xE0
  · exact ⟨0xA0, 0xBF, if_pos he, (if_pos he).symm, (if_neg (by omega)).symm⟩
  rw [if_neg he, if_neg he]
  by_cases hd : b.toNat = 0xED
  · exact ⟨0x80, 0x9F, if_pos hd, rfl, (if_pos hd).symm⟩
  · rw [if_neg hd, if_neg hd, if_pos h']
    exact ⟨0x80, 0xBF, rfl, rfl, rfl⟩

theorem Lead.ofByte?_four (h : 0xF0 ≤ b.toNat) (h' : b.toNat < 0xF5) :
    ∃ low high, Lead.ofByte? b = some ⟨3, low, high⟩ ∧
      low.toNat = (if b.toNat = 0xF0 then 0x90 else 0x80) ∧
      high.toNat = if b.toNat = 0xF4 then 0x8F else 0xBF := by
  rw [Lead.ofByte?_eq, if_neg (by omega), if_neg (by omega), if_neg (by omega), if_neg (by omega),
    if_neg (by omega), if_neg (by omega)]
  by_cases h0 : b.toNat = 0xF0
  · exact ⟨0x90, 0xBF, if_pos h0, (if_pos h0).symm, (if_neg (by omega)).symm⟩
  rw [if_neg h0, if_neg h0]
  by_cases h4 : b.toNat = 0xF4
  · rw [if_neg (by omega), if_pos h4, if_pos h4]
    exact ⟨0x80, 0x8F, rfl, rfl, rfl⟩
  · rw [if_pos (by omega), if_neg h4]
    exact ⟨0x80, 0xBF, rfl, rfl, rfl⟩

/-- The first bytes of characters by the number of bytes that follow them. -/
theorem Lead.of_ofByte?_eq_some {lead : Lead} (h : Lead.ofByte? b = some lead) :
    lead.following = 0 ∧ b.toNat < 0x80 ∨
      lead.following = 1 ∧ 0xC2 ≤ b.toNat ∧ b.toNat < 0xE0 ∨
      lead.following = 2 ∧ 0xE0 ≤ b.toNat ∧ b.toNat < 0xF0 ∨
      lead.following = 3 ∧ 0xF0 ≤ b.toNat ∧ b.toNat < 0xF5 := by
  by_cases h₁ : b.toNat < 0x80
  · rw [Lead.ofByte?_one h₁] at h
    cases h
    exact Or.inl ⟨rfl, h₁⟩
  by_cases h₂ : b.toNat < 0xC2
  · rw [Lead.ofByte?_eq, if_neg h₁, if_pos h₂] at h
    cases h
  by_cases h₃ : b.toNat < 0xE0
  · rw [Lead.ofByte?_two (by omega) h₃] at h
    cases h
    exact Or.inr (Or.inl ⟨rfl, by omega, h₃⟩)
  by_cases h₄ : b.toNat < 0xF0
  · obtain ⟨low, high, hl, -⟩ := Lead.ofByte?_three (by omega) h₄
    cases hl.symm.trans h
    exact Or.inr (Or.inr (Or.inl ⟨rfl, by omega, h₄⟩))
  by_cases h₅ : b.toNat < 0xF5
  · obtain ⟨low, high, hl, -⟩ := Lead.ofByte?_four (by omega) h₅
    cases hl.symm.trans h
    exact Or.inr (Or.inr (Or.inr ⟨rfl, by omega, h₅⟩))
  · rw [Lead.ofByte?_eq, if_neg h₁, if_neg h₂, if_neg h₃, if_neg (by omega), if_neg (by omega),
      if_neg h₄, if_neg (by omega), if_neg (by omega), if_neg (by omega)] at h
    cases h

end

/-! ## One character -/

theorem continuation_append {low high c : UInt8} (hlow : low.toNat ≤ c.toNat)
    (hhigh : c.toNat ≤ high.toNat) {more : Bytes}
    (h : ∀ b ∈ more, 0x80 ≤ b.toNat ∧ b.toNat ≤ 0xBF) (rest : Bytes) :
    continuation (more.length + 1) low high (c :: (more ++ rest)) = c :: more := by
  induction more generalizing low high c with
  | nil => simp [continuation, UInt8.le_iff_toNat_le, hlow, hhigh]
  | cons b more ih =>
    have hc : low ≤ c ∧ c ≤ high := ⟨UInt8.le_iff_toNat_le.2 hlow, UInt8.le_iff_toNat_le.2 hhigh⟩
    have hb : (0x80 : UInt8).toNat ≤ b.toNat ∧ b.toNat ≤ (0xBF : UInt8).toNat :=
      h b List.mem_cons_self
    rw [List.length_cons, List.cons_append, continuation, if_pos hc,
      ih hb.1 hb.2 fun x hx => h x (List.mem_cons_of_mem b hx)]

/-- A first byte with as many bytes behind it as it asks for is read as one character. -/
theorem pieces_lead {b c low high : UInt8} (more : Bytes)
    (hb : Lead.ofByte? b = some ⟨more.length + 1, low, high⟩) (hlow : low.toNat ≤ c.toNat)
    (hhigh : c.toNat ≤ high.toNat) (h : ∀ b ∈ more, 0x80 ≤ b.toNat ∧ b.toNat ≤ 0xBF)
    (rest : Bytes) : pieces (b :: c :: (more ++ rest)) =
      some (Char.ofNat (codePoint b (c :: more))) :: pieces rest := by
  rw [pieces]
  simp only [hb, continuation_append hlow hhigh h, List.length_cons, if_true]
  rw [List.drop_succ_cons, List.drop_left]

section

variable {v : Nat} (rest : Bytes)

theorem pieces_one (h : v ≤ 0x7F) :
    pieces (UInt8.ofNat v :: rest) = some (Char.ofNat v) :: pieces rest := by
  have hb : (UInt8.ofNat v).toNat = v :=
    UInt8.toNat_ofNat_of_lt' (by simp only [UInt8.size]; omega)
  rw [pieces, Lead.ofByte?_one (by omega)]
  simp only [continuation, List.length_nil, if_true, List.drop_zero]
  rw [codePoint, if_pos rfl, List.foldl_nil, hb, Nat.mod_eq_of_lt (by omega)]

theorem toNat_trail (n : Nat) : (UInt8.ofNat (n % 0x40 + 0x80)).toNat = n % 0x40 + 0x80 :=
  UInt8.toNat_ofNat_of_lt' (by simp only [UInt8.size]; omega)

theorem pieces_two (h : 0x7F < v) (h' : v ≤ 0x7FF) :
    pieces (UInt8.ofNat (v / 64 % 0x20 + 0xC0) :: UInt8.ofNat (v % 0x40 + 0x80) :: rest) =
      some (Char.ofNat v) :: pieces rest := by
  have hb : (UInt8.ofNat (v / 64 % 0x20 + 0xC0)).toNat = v / 64 + 0xC0 := by
    rw [UInt8.toNat_ofNat_of_lt' (by simp only [UInt8.size]; omega)]
    omega
  have hc := toNat_trail v
  generalize UInt8.ofNat (v / 64 % 0x20 + 0xC0) = b at hb ⊢
  generalize UInt8.ofNat (v % 0x40 + 0x80) = c at hc ⊢
  have hcode : codePoint b [c] = v := by
    simp [codePoint, hb, hc]
    omega
  rw [← hcode]
  have hlead := Lead.ofByte?_two (b := b) (by omega) (by omega)
  exact pieces_lead [] hlead (by rw [hc]; exact Nat.le_add_left _ _)
    (by change c.toNat ≤ 0xBF; omega) (by simp) rest

theorem pieces_three (h : 0x7FF < v) (h' : v ≤ 0xFFFF) (hv : v < 0xD800 ∨ 0xDFFF < v) :
    pieces (UInt8.ofNat (v / 4096 % 0x10 + 0xE0) :: UInt8.ofNat (v / 64 % 0x40 + 0x80) ::
      UInt8.ofNat (v % 0x40 + 0x80) :: rest) = some (Char.ofNat v) :: pieces rest := by
  have hb : (UInt8.ofNat (v / 4096 % 0x10 + 0xE0)).toNat = v / 4096 + 0xE0 := by
    rw [UInt8.toNat_ofNat_of_lt' (by simp only [UInt8.size]; omega)]
    omega
  have hc := toNat_trail (v / 64)
  have hd := toNat_trail v
  generalize UInt8.ofNat (v / 4096 % 0x10 + 0xE0) = b at hb ⊢
  generalize UInt8.ofNat (v / 64 % 0x40 + 0x80) = c at hc ⊢
  generalize UInt8.ofNat (v % 0x40 + 0x80) = d at hd ⊢
  have hcode : codePoint b [c, d] = v := by
    simp [codePoint, hb, hc, hd]
    omega
  rw [← hcode]
  obtain ⟨low, high, hlead, hlow, hhigh⟩ := Lead.ofByte?_three (b := b) (by omega) (by omega)
  exact pieces_lead [d] hlead (by split at hlow <;> omega) (by split at hhigh <;> omega)
    (by simp [hd]; omega) rest

theorem pieces_four (h : 0xFFFF < v) (h' : v < 0x110000) :
    pieces (UInt8.ofNat (v / 262144 % 0x08 + 0xF0) :: UInt8.ofNat (v / 4096 % 0x40 + 0x80) ::
      UInt8.ofNat (v / 64 % 0x40 + 0x80) :: UInt8.ofNat (v % 0x40 + 0x80) :: rest) =
      some (Char.ofNat v) :: pieces rest := by
  have hb : (UInt8.ofNat (v / 262144 % 0x08 + 0xF0)).toNat = v / 262144 + 0xF0 := by
    rw [UInt8.toNat_ofNat_of_lt' (by simp only [UInt8.size]; omega)]
    omega
  have hc := toNat_trail (v / 4096)
  have hd := toNat_trail (v / 64)
  have he := toNat_trail v
  generalize UInt8.ofNat (v / 262144 % 0x08 + 0xF0) = b at hb ⊢
  generalize UInt8.ofNat (v / 4096 % 0x40 + 0x80) = c at hc ⊢
  generalize UInt8.ofNat (v / 64 % 0x40 + 0x80) = d at hd ⊢
  generalize UInt8.ofNat (v % 0x40 + 0x80) = e at he ⊢
  have hcode : codePoint b [c, d, e] = v := by
    simp [codePoint, hb, hc, hd, he]
    omega
  rw [← hcode]
  obtain ⟨low, high, hlead, hlow, hhigh⟩ := Lead.ofByte?_four (b := b) (by omega) (by omega)
  exact pieces_lead [d, e] hlead (by split at hlow <;> omega)
    (by split at hhigh <;> omega) (by simp [hd, he]; omega) rest

end

/-- The bytes of a character are read as that character. -/
theorem pieces_utf8EncodeChar_append (c : Char) (rest : Bytes) :
    pieces (String.utf8EncodeChar c ++ rest) = some c :: pieces rest := by
  have hc : Char.ofNat c.val.toNat = c := Char.ofNat_toNat c
  have hv : c.val.toNat < 0xD800 ∨ 0xDFFF < c.val.toNat ∧ c.val.toNat < 0x110000 := c.valid
  unfold String.utf8EncodeChar
  dsimp only
  generalize c.val.toNat = v at hc hv ⊢
  rw [← hc]
  split
  · exact pieces_one rest ‹_›
  split
  · exact pieces_two rest (by omega) ‹_›
  split
  · exact pieces_three rest (by omega) ‹_› (by omega)
  · exact pieces_four rest (by omega) (by omega)

theorem pieces_encode (t : Text) : pieces (encode t) = t.map some := by
  induction t with
  | nil => simp [pieces]
  | cons c t ih =>
    have hcons : encode (c :: t) = String.utf8EncodeChar c ++ encode t := rfl
    rw [hcons, pieces_utf8EncodeChar_append, ih, List.map_cons]

theorem mapM_id_eq_some_iff {ps : List (Option Char)} {t : Text} :
    ps.mapM id = some t ↔ ps = t.map some := by
  induction ps generalizing t with
  | nil => cases t <;> simp
  | cons p ps ih =>
    rw [List.mapM_cons]
    cases p with
    | none => cases t <;> simp
    | some c => cases t <;> simp [Option.bind_eq_some_iff, ih, and_comm]

/-- A text is read back from its bytes. -/
@[simp] theorem decode?_encode (t : Text) : decode? (encode t) = some t :=
  mapM_id_eq_some_iff.2 (pieces_encode t)

theorem encode_injective {s t : Text} (h : encode s = encode t) : s = t := by
  have hdecode := congrArg decode? h
  rwa [decode?_encode, decode?_encode, Option.some.injEq] at hdecode

/-! ## No other bytes -/

theorem continuation_prefix_rest (n : Nat) (low high : UInt8) (rest : Bytes) :
    continuation n low high rest <+: rest := by
  fun_induction continuation n low high rest with
  | case1 low high n b rest h ih => exact List.cons_prefix_cons.2 ⟨rfl, ih⟩
  | case2 => exact List.nil_prefix
  | case3 => exact List.nil_prefix

/-- The bytes that continue a character are in their ranges. -/
theorem of_continuation_eq_cons {n : Nat} {low high c : UInt8} {rest more : Bytes}
    (h : continuation n low high rest = c :: more) :
    low.toNat ≤ c.toNat ∧ c.toNat ≤ high.toNat ∧ ∀ d ∈ more, 0x80 ≤ d.toNat ∧ d.toNat ≤ 0xBF := by
  induction n generalizing low high c rest more with
  | zero => simp [continuation] at h
  | succ n ih =>
    cases rest with
    | nil => simp [continuation] at h
    | cons b rest =>
      rw [continuation] at h
      split at h
      · next hb =>
        obtain ⟨rfl, hmore⟩ := List.cons.inj h
        refine ⟨UInt8.le_iff_toNat_le.1 hb.1, UInt8.le_iff_toNat_le.1 hb.2, ?_⟩
        cases more with
        | nil => simp
        | cons d more =>
          obtain ⟨hlow, hhigh, hmore⟩ := ih hmore
          exact List.forall_mem_cons.2 ⟨⟨hlow, hhigh⟩, hmore⟩
      · cases h

theorem val_toNat_ofNat {v : Nat} (hv : v.isValidChar) : (Char.ofNat v).val.toNat = v := by
  rw [Char.ofNat, dif_pos hv]
  rfl

theorem ofNat_eq {n : Nat} {b : UInt8} (h : n = b.toNat) : UInt8.ofNat n = b := by
  rw [h, UInt8.ofNat_toNat]

section

variable {b c d e : UInt8}

theorem utf8EncodeChar_one (hb : b.toNat < 0x80) :
    String.utf8EncodeChar (Char.ofNat (codePoint b [])) = [b] := by
  have hv : codePoint b [] = b.toNat := by
    simp [codePoint]
    omega
  rw [hv, String.utf8EncodeChar, val_toNat_ofNat (Or.inl (by omega)), if_pos (by omega),
    ofNat_eq rfl]

theorem utf8EncodeChar_two (hb : 0xC2 ≤ b.toNat) (hb' : b.toNat < 0xE0)
    (hc : 0x80 ≤ c.toNat ∧ c.toNat ≤ 0xBF) :
    String.utf8EncodeChar (Char.ofNat (codePoint b [c])) = [b, c] := by
  have hv : codePoint b [c] = b.toNat % 32 * 64 + c.toNat % 64 := by simp [codePoint]
  rw [hv, String.utf8EncodeChar, val_toNat_ofNat (Or.inl (by omega)), if_neg (by omega),
    if_pos (by omega), ofNat_eq (b := b) (by omega), ofNat_eq (b := c) (by omega)]

theorem utf8EncodeChar_three (hb : 0xE0 ≤ b.toNat) (hb' : b.toNat < 0xF0)
    (hlow : (if b.toNat = 0xE0 then 0xA0 else 0x80) ≤ c.toNat)
    (hhigh : c.toNat ≤ if b.toNat = 0xED then 0x9F else 0xBF)
    (hd : 0x80 ≤ d.toNat ∧ d.toNat ≤ 0xBF) :
    String.utf8EncodeChar (Char.ofNat (codePoint b [c, d])) = [b, c, d] := by
  have hv : codePoint b [c, d] = (b.toNat % 16 * 64 + c.toNat % 64) * 64 + d.toNat % 64 := by
    simp [codePoint]
  have hc : 0x80 ≤ c.toNat ∧ c.toNat ≤ 0xBF := by
    split at hlow <;> split at hhigh <;> omega
  have hmore : 0x7FF < codePoint b [c, d] := by
    rw [hv]
    split at hlow <;> omega
  -- a first byte of `0xED` would make surrogates with higher second bytes
  have hvalid : codePoint b [c, d] < 0xD800 ∨
      0xDFFF < codePoint b [c, d] ∧ codePoint b [c, d] < 0x110000 := by
    rw [hv]
    split at hhigh <;> omega
  rw [String.utf8EncodeChar, val_toNat_ofNat hvalid, if_neg (by omega), if_neg (by omega),
    if_pos (by omega), ofNat_eq (b := b) (by omega), ofNat_eq (b := c) (by omega),
    ofNat_eq (b := d) (by omega)]

theorem utf8EncodeChar_four (hb : 0xF0 ≤ b.toNat) (hb' : b.toNat < 0xF5)
    (hlow : (if b.toNat = 0xF0 then 0x90 else 0x80) ≤ c.toNat)
    (hhigh : c.toNat ≤ if b.toNat = 0xF4 then 0x8F else 0xBF)
    (hd : 0x80 ≤ d.toNat ∧ d.toNat ≤ 0xBF) (he : 0x80 ≤ e.toNat ∧ e.toNat ≤ 0xBF) :
    String.utf8EncodeChar (Char.ofNat (codePoint b [c, d, e])) = [b, c, d, e] := by
  have hv : codePoint b [c, d, e] =
      ((b.toNat % 8 * 64 + c.toNat % 64) * 64 + d.toNat % 64) * 64 + e.toNat % 64 := by
    simp [codePoint]
  have hc : 0x80 ≤ c.toNat ∧ c.toNat ≤ 0xBF := by
    split at hlow <;> split at hhigh <;> omega
  have hmore : 0xFFFF < codePoint b [c, d, e] := by
    rw [hv]
    split at hlow <;> omega
  have hvalid : codePoint b [c, d, e] < 0x110000 := by
    rw [hv]
    split at hhigh <;> omega
  rw [String.utf8EncodeChar, val_toNat_ofNat (Or.inr ⟨by omega, hvalid⟩), if_neg (by omega),
    if_neg (by omega), if_neg (by omega), ofNat_eq (b := b) (by omega),
    ofNat_eq (b := c) (by omega), ofNat_eq (b := d) (by omega), ofNat_eq (b := e) (by omega)]

end

/-- A character has no bytes but those that it is read from. -/
theorem utf8EncodeChar_codePoint {b : UInt8} {lead : Lead} (hb : Lead.ofByte? b = some lead)
    {bytes : Bytes} (hbounds : ∀ c more, bytes = c :: more →
      lead.low.toNat ≤ c.toNat ∧ c.toNat ≤ lead.high.toNat ∧
        ∀ d ∈ more, 0x80 ≤ d.toNat ∧ d.toNat ≤ 0xBF)
    (hlen : bytes.length = lead.following) :
    String.utf8EncodeChar (Char.ofNat (codePoint b bytes)) = b :: bytes := by
  rcases Lead.of_ofByte?_eq_some hb with ⟨hn, h⟩ | ⟨hn, h, h'⟩ | ⟨hn, h, h'⟩ | ⟨hn, h, h'⟩ <;>
    rw [hn] at hlen
  · obtain rfl := List.eq_nil_of_length_eq_zero hlen
    exact utf8EncodeChar_one h
  · obtain ⟨c, rfl⟩ := List.length_eq_one_iff.1 hlen
    obtain ⟨hlow, hhigh, -⟩ := hbounds c [] rfl
    cases (Lead.ofByte?_two h h').symm.trans hb
    exact utf8EncodeChar_two h h' ⟨hlow, hhigh⟩
  · obtain ⟨c, d, rfl⟩ := List.length_eq_two.1 hlen
    obtain ⟨hlow, hhigh, hmore⟩ := hbounds c [d] rfl
    obtain ⟨low, high, hlead, hl, hr⟩ := Lead.ofByte?_three h h'
    cases hlead.symm.trans hb
    exact utf8EncodeChar_three h h' (hl ▸ hlow) (hr ▸ hhigh) (hmore d (by simp))
  · obtain ⟨c, d, e, rfl⟩ := List.length_eq_three.1 hlen
    obtain ⟨hlow, hhigh, hmore⟩ := hbounds c [d, e] rfl
    obtain ⟨low, high, hlead, hl, hr⟩ := Lead.ofByte?_four h h'
    cases hlead.symm.trans hb
    exact utf8EncodeChar_four h h' (hl ▸ hlow) (hr ▸ hhigh) (hmore d (by simp)) (hmore e (by simp))

/-- A character is read from its own bytes. -/
theorem exists_of_pieces_eq_cons {bytes : Bytes} {c : Char} {more : List (Option Char)}
    (h : pieces bytes = some c :: more) :
    ∃ rest, bytes = String.utf8EncodeChar c ++ rest ∧ more = pieces rest := by
  cases bytes with
  | nil => simp [pieces] at h
  | cons b rest =>
    rw [pieces] at h
    cases hlead : Lead.ofByte? b with
    | none => simp [hlead] at h
    | some lead =>
      simp only [hlead, List.cons.injEq] at h
      obtain ⟨hpiece, rfl⟩ := h
      split at hpiece
      · next hlen =>
        obtain rfl := Option.some.inj hpiece
        refine ⟨_, ?_, rfl⟩
        rw [utf8EncodeChar_codePoint hlead (fun c more => of_continuation_eq_cons) hlen,
          List.cons_append, List.prefix_iff_eq_append.1 (continuation_prefix_rest _ _ _ _)]
      · cases hpiece

theorem pieces_cons (b : UInt8) (rest : Bytes) :
    ∃ piece n, pieces (b :: rest) = piece :: pieces (rest.drop n) := by
  rw [pieces]
  cases Lead.ofByte? b with
  | none => exact ⟨none, 0, rfl⟩
  | some lead => exact ⟨_, _, rfl⟩

/-- A text is read from its own bytes only. -/
theorem decode?_eq_some_iff {bytes : Bytes} {t : Text} :
    decode? bytes = some t ↔ bytes = encode t := by
  refine ⟨fun h => ?_, fun h => h ▸ decode?_encode t⟩
  have hpieces := mapM_id_eq_some_iff.1 h
  clear h
  induction t generalizing bytes with
  | nil =>
    cases bytes with
    | nil => rfl
    | cons b rest =>
      obtain ⟨piece, n, hp⟩ := pieces_cons b rest
      cases hp.symm.trans hpieces
  | cons c t ih =>
    obtain ⟨rest, rfl, hmore⟩ := exists_of_pieces_eq_cons hpieces
    rw [ih hmore.symm]
    rfl

@[simp] theorem lossy_encode (t : Text) : lossy (encode t) = t := by
  rw [lossy, pieces_encode, List.map_map]
  exact List.map_id t

/-- The text that is shown for bytes has these bytes itself only if they are well-formed. -/
theorem encode_lossy_eq_iff {bytes : Bytes} :
    encode (lossy bytes) = bytes ↔ ∃ t, decode? bytes = some t := by
  constructor
  · intro h
    exact ⟨lossy bytes, decode?_eq_some_iff.2 h.symm⟩
  · rintro ⟨t, ht⟩
    rw [decode?_eq_some_iff.1 ht, lossy_encode]

theorem map_encode_lossy_eq_iff {names : List Bytes} :
    (names.map lossy).map encode = names ↔ ∀ name ∈ names, ∃ t, decode? name = some t := by
  simp only [← encode_lossy_eq_iff]
  conv_lhs =>
    rw [List.map_map]
    rhs
    rw [← List.map_id names]
  exact List.map_inj_left

/-! ## ASCII -/

/-- A character of ASCII is read from one byte. -/
theorem eq_of_pieces_cons {b : UInt8} {rest : Bytes} {c : Char} {more : List (Option Char)}
    (hc : c.toNat < 0x80) (h : pieces (b :: rest) = some c :: more) :
    b.toNat = c.toNat ∧ more = pieces rest := by
  obtain ⟨after, hbytes, rfl⟩ := exists_of_pieces_eq_cons h
  have hone : String.utf8EncodeChar c = [UInt8.ofNat c.toNat] := if_pos (Nat.le_of_lt_succ hc)
  rw [hone, List.singleton_append] at hbytes
  obtain ⟨rfl, rfl⟩ := List.cons.inj hbytes
  exact ⟨UInt8.toNat_ofNat_of_lt' (by simp only [UInt8.size]; omega), rfl⟩

/-- The characters of ASCII come from bytes of their own. -/
theorem mem_of_mem_pieces {c : Char} (hc : c.toNat < 0x80) (bytes : Bytes)
    (h : some c ∈ pieces bytes) : ∃ b ∈ bytes, b.toNat = c.toNat := by
  match bytes with
  | [] => simp [pieces] at h
  | b :: rest =>
    obtain ⟨piece, n, hp⟩ := pieces_cons b rest
    rw [hp] at h
    rcases List.mem_cons.1 h with rfl | h
    · exact ⟨b, List.mem_cons_self, (eq_of_pieces_cons hc hp).1⟩
    · obtain ⟨d, hd, heq⟩ := mem_of_mem_pieces hc (rest.drop n) h
      exact ⟨d, List.mem_cons_of_mem b (List.mem_of_mem_drop hd), heq⟩
termination_by bytes.length
decreasing_by simp only [List.length_drop, List.length_cons]; omega

theorem mem_of_mem_lossy {bytes : Bytes} {c : Char} (hc : c.toNat < 0x80)
    (h : c ∈ lossy bytes) : ∃ b ∈ bytes, b.toNat = c.toNat := by
  obtain ⟨piece, hp, rfl⟩ := List.mem_map.1 h
  cases piece with
  | none => exact absurd hc (by decide)
  | some c => exact mem_of_mem_pieces hc bytes hp

/-- A text of ASCII is read from no bytes but its own. -/
theorem eq_of_lossy_eq {bytes : Bytes} {t : Text} (ht : ∀ c ∈ t, c.toNat < 0x80)
    (h : lossy bytes = t) : bytes.map UInt8.toNat = t.map Char.toNat := by
  induction t generalizing bytes with
  | nil =>
    cases bytes with
    | nil => rfl
    | cons b rest =>
      obtain ⟨piece, n, hp⟩ := pieces_cons b rest
      simp [lossy, hp] at h
  | cons c t ih =>
    have hc := ht c List.mem_cons_self
    cases bytes with
    | nil => simp [lossy, pieces] at h
    | cons b rest =>
      obtain ⟨piece, n, hp⟩ := pieces_cons b rest
      rw [lossy, hp, List.map_cons, List.cons.injEq] at h
      obtain ⟨hpiece, hmore⟩ := h
      cases piece with
      | none =>
        rw [← hpiece] at hc
        exact absurd hc (by decide)
      | some d =>
        obtain rfl : d = c := hpiece
        obtain ⟨hb, heq⟩ := eq_of_pieces_cons hc hp
        rw [heq] at hmore
        rw [List.map_cons, List.map_cons, hb,
          ih (fun x hx => ht x (List.mem_cons_of_mem d hx)) hmore]

/-! ## Offsets and lines -/

theorem length_encode (t : Text) : (encode t).length = t.utf8Size := by
  induction t with
  | nil => rfl
  | cons c t ih =>
    have hcons : encode (c :: t) = String.utf8EncodeChar c ++ encode t := rfl
    rw [hcons, List.length_append, String.length_utf8EncodeChar, ih, Text.utf8Size_cons]

/-- The bytes before an offset that falls between characters are those of the text before it. -/
theorem take_encode_append (s t : Text) : (encode (s ++ t)).take s.utf8Size = encode s := by
  rw [encode_append, ← length_encode, List.take_left]

/-- The bytes of a character beyond ASCII are beyond ASCII. -/
theorem le_of_mem_utf8EncodeChar {c : Char} (hc : 0x7F < c.toNat) :
    ∀ b ∈ String.utf8EncodeChar c, 0x80 ≤ b.toNat := by
  have hbyte (n : Nat) (hn : 0x80 ≤ n ∧ n < 0x100) : 0x80 ≤ (UInt8.ofNat n).toNat := by
    rw [UInt8.toNat_ofNat_of_lt' hn.2]
    exact hn.1
  change 0x7F < c.val.toNat at hc
  unfold String.utf8EncodeChar
  dsimp only
  generalize c.val.toNat = v at hc
  rw [if_neg (by omega)]
  split
  · simp only [List.forall_mem_cons]
    exact ⟨hbyte _ (by omega), hbyte _ (by omega), by simp⟩
  split
  · simp only [List.forall_mem_cons]
    exact ⟨hbyte _ (by omega), hbyte _ (by omega), hbyte _ (by omega), by simp⟩
  · simp only [List.forall_mem_cons]
    exact ⟨hbyte _ (by omega), hbyte _ (by omega), hbyte _ (by omega), hbyte _ (by omega),
      by simp⟩

/-- A byte of ASCII in the form of a text is a character of the text. -/
theorem exists_of_mem_encode {t : Text} {b : UInt8} (hb : b.toNat < 0x80) (h : b ∈ encode t) :
    ∃ c ∈ t, c.toNat = b.toNat := by
  obtain ⟨c, hc, hmem⟩ := List.mem_flatMap.1 h
  refine ⟨c, hc, ?_⟩
  by_cases hascii : c.toNat ≤ 0x7F
  · have hone : String.utf8EncodeChar c = [UInt8.ofNat c.toNat] := if_pos hascii
    rw [hone, List.mem_singleton] at hmem
    rw [hmem, UInt8.toNat_ofNat_of_lt' (by simp only [UInt8.size]; omega)]
  · have := le_of_mem_utf8EncodeChar (by omega) b hmem
    omega

/-- A text has as many line feeds as its bytes have bytes of line feeds. -/
theorem count_lineFeed_encode (t : Text) : (encode t).count 0x0A = t.lineFeeds := by
  induction t with
  | nil => rfl
  | cons c t ih =>
    have hcons : encode (c :: t) = String.utf8EncodeChar c ++ encode t := rfl
    have hchar : (String.utf8EncodeChar c).count 0x0A = if c = '\n' then 1 else 0 := by
      by_cases hc : c.toNat ≤ 0x7F
      · have hone : String.utf8EncodeChar c = [UInt8.ofNat c.toNat] := if_pos hc
        have hfeed : UInt8.ofNat c.toNat = 0x0A ↔ c = '\n' := by
          rw [← UInt8.toNat_inj, UInt8.toNat_ofNat_of_lt' (by simp only [UInt8.size]; omega),
            ← Char.toNat_inj]
          rfl
        rw [hone, List.count_singleton]
        simp [hfeed]
      · rw [List.count_eq_zero_of_not_mem, if_neg]
        · rintro rfl
          exact hc (by decide)
        · intro hmem
          exact absurd (le_of_mem_utf8EncodeChar (by omega) _ hmem) (by decide)
    rw [hcons, List.count_append, hchar, ih, Text.lineFeeds, Text.lineFeeds, List.count_cons]
    simp [Nat.add_comm]

end TrueCase.Utf8

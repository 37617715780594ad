import Mathlib.Data.List.Basic

/-! Texts as sequences of scalar values, and their two encodings. -/
namespace Unicode

def utf8 (text : List Char) : List UInt8 := text.flatMap String.utf8EncodeChar

/-- A surrogate pair for what does not fit. -/
def utf16Char (c : Char) : List UInt16 :=
  if c.toNat < 0x10000 then [UInt16.ofNat c.toNat]
  else [UInt16.ofNat (0xd800 + (c.toNat - 0x10000) / 0x400),
    UInt16.ofNat (0xdc00 + (c.toNat - 0x10000) % 0x400)]

def utf16 (text : List Char) : List UInt16 := text.flatMap utf16Char

def Ascii (text : List Char) : Prop := ∀ c ∈ text, c.toNat < 128

instance (text : List Char) : Decidable (Ascii text) :=
  decidable_of_iff (text.all (fun c => decide (c.toNat < 128)) = true) (by simp [Ascii])

theorem utf8EncodeChar_ascii {c : Char} (h : c.toNat < 128) :
    String.utf8EncodeChar c = [UInt8.ofNat c.toNat] := by
  have hval : c.val.toNat ≤ 0x7f := by
    change c.toNat ≤ 0x7f
    omega
  simp only [String.utf8EncodeChar, if_pos hval]
  rfl

theorem utf16Char_ascii {c : Char} (h : c.toNat < 128) :
    utf16Char c = [UInt16.ofNat c.toNat] := if_pos (by omega)

/-- Only an ASCII character takes as many bytes as code units. -/
theorem utf16Char_length_lt {c : Char} (h : 128 ≤ c.toNat) :
    (utf16Char c).length < (String.utf8EncodeChar c).length := by
  have hval : c.val.toNat = c.toNat := rfl
  simp only [String.utf8EncodeChar, utf16Char, hval]
  split_ifs <;> simp <;> omega

theorem utf16_length_le (text : List Char) : (utf16 text).length ≤ (utf8 text).length := by
  induction text with
  | nil => exact Nat.le_refl _
  | cons c text ih =>
    simp only [utf16, utf8, List.flatMap_cons, List.length_append] at ih ⊢
    by_cases h : c.toNat < 128
    · rw [utf16Char_ascii h, utf8EncodeChar_ascii h, List.length_singleton, List.length_singleton]
      omega
    · have hlt := utf16Char_length_lt (Nat.not_lt.mp h)
      omega

theorem utf16_length_eq_iff {text : List Char} :
    (utf16 text).length = (utf8 text).length ↔ Ascii text := by
  induction text with
  | nil => simp [utf16, utf8, Ascii]
  | cons c text ih =>
    have hle := utf16_length_le text
    simp only [utf16, utf8, List.flatMap_cons, List.length_append, Ascii,
      List.forall_mem_cons] at ih hle ⊢
    by_cases h : c.toNat < 128
    · rw [utf16Char_ascii h, utf8EncodeChar_ascii h, ← ih]
      simp [h]
    · have hlt := utf16Char_length_lt (Nat.not_lt.mp h)
      constructor
      · intro heq
        omega
      · intro hall
        exact absurd hall.1 h

theorem Ascii.utf16_eq {text : List Char} (h : Ascii text) :
    utf16 text = (utf8 text).map UInt8.toUInt16 := by
  induction text with
  | nil => rfl
  | cons c text ih =>
    obtain ⟨hc, hrest⟩ := List.forall_mem_cons.mp h
    have hunit : UInt16.ofNat c.toNat = (UInt8.ofNat c.toNat).toUInt16 := by
      apply UInt16.toNat_inj.mp
      rw [UInt8.toNat_toUInt16, UInt16.toNat_ofNat', UInt8.toNat_ofNat']
      omega
    rw [utf16, utf8, List.flatMap_cons, List.flatMap_cons, utf16Char_ascii hc,
      utf8EncodeChar_ascii hc, List.map_append, hunit]
    exact congrArg (_ :: ·) (ih hrest)

theorem Ascii.lt {text : List Char} (h : Ascii text) : ∀ b ∈ utf8 text, b < 128 := by
  intro b hb
  obtain ⟨c, hc, hb⟩ := List.mem_flatMap.mp hb
  have hlt := h c hc
  rw [utf8EncodeChar_ascii hlt, List.mem_singleton] at hb
  rw [hb, UInt8.lt_iff_toNat_lt, UInt8.toNat_ofNat']
  change c.toNat % 2 ^ 8 < 128
  omega

theorem utf8_ne_nil {text : List Char} (h : text ≠ []) : utf8 text ≠ [] := by
  cases text with
  | nil => exact absurd rfl h
  | cons c text =>
    rw [utf8, List.flatMap_cons]
    exact List.append_ne_nil_of_left_ne_nil String.utf8EncodeChar_ne_nil _

end Unicode

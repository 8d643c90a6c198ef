import ConfigGuard.Library.OsPath

/-!
# Text and its bytes

Text is read back from its bytes, and bytes below 128 are those of the ASCII
characters alone.
-/

namespace OsPath

theorem utf8_of_toStr {b : Bytes} {s : String} (h : toStr b = some s) : utf8 s = b := by
  simp only [toStr, String.fromUTF8?] at h
  split at h
  · rw [← Option.some.inj h]
    rfl
  · cases h

theorem toStr_utf8 (s : String) : toStr (utf8 s) = some s := by
  have hvalid : (⟨(utf8 s).toArray⟩ : ByteArray).IsValidUTF8 := s.isValidUTF8
  simp only [toStr, String.fromUTF8?]
  rw [dif_pos hvalid]
  rfl

theorem utf8_inj {s t : String} (h : utf8 s = utf8 t) : s = t := by
  have htext := toStr_utf8 s
  rw [h, toStr_utf8] at htext
  exact (Option.some.inj htext).symm

theorem utf8_append (s t : String) : utf8 (s ++ t) = utf8 s ++ utf8 t := by
  simp [utf8]

theorem utf8_ofList (cs : List Char) :
    utf8 (String.ofList cs) = cs.flatMap String.utf8EncodeChar := by
  simp [utf8, List.utf8Encode]

/-- The bytes of decimal digits are those of the digits. -/
theorem mem_utf8_digits {cs : List Char} (h : ∀ c ∈ cs, c.isDigit = true) {b : UInt8}
    (hb : b ∈ utf8 (String.ofList cs)) : 48 ≤ b ∧ b ≤ 57 := by
  rw [utf8_ofList] at hb
  obtain ⟨c, hc, hb⟩ := List.mem_flatMap.mp hb
  have hdigit := h c hc
  rw [Char.isDigit, Bool.and_eq_true, decide_eq_true_eq, decide_eq_true_eq] at hdigit
  have hlow : 48 ≤ c.val.toNat := UInt32.le_iff_toNat_le.mp hdigit.1
  have hhigh : c.val.toNat ≤ 57 := UInt32.le_iff_toNat_le.mp hdigit.2
  have hsize : c.utf8Size = 1 := by
    rw [Char.utf8Size_eq_one_iff, UInt32.le_iff_toNat_le]
    exact Nat.le_trans hhigh (by decide)
  rw [String.utf8EncodeChar_eq_singleton hsize, List.mem_singleton] at hb
  subst hb
  rw [UInt8.le_iff_toNat_le, UInt8.le_iff_toNat_le, UInt32.toNat_toUInt8,
    Nat.mod_eq_of_lt (by omega)]
  exact ⟨hlow, hhigh⟩

/-- The bytes of a character that is not ASCII are at least 128. -/
theorem utf8Size_of_mem {c : Char} {b : UInt8} (hb : b ∈ String.utf8EncodeChar c)
    (hascii : b.toNat < 128) : c.utf8Size = 1 ∧ b = c.val.toUInt8 := by
  have hhigh : ∀ x y : UInt8, 128 ≤ y.toNat → ¬ (x ||| y).toNat < 128 := by
    intro x y hy hlt
    rw [UInt8.toNat_or] at hlt
    exact absurd (Nat.le_trans hy Nat.right_le_or) (Nat.not_le.mpr hlt)
  have hsize := c.utf8Size_le_four
  have hpos := c.utf8Size_pos
  obtain hone | htwo | hthree | hfour : c.utf8Size = 1 ∨ c.utf8Size = 2 ∨ c.utf8Size = 3 ∨
      c.utf8Size = 4 := by omega
  · rw [String.utf8EncodeChar_eq_singleton hone, List.mem_singleton] at hb
    exact ⟨hone, hb⟩
  · rw [String.utf8EncodeChar_eq_cons_cons htwo] at hb
    simp only [List.mem_cons, List.not_mem_nil, or_false] at hb
    rcases hb with rfl | rfl <;> exact absurd hascii (hhigh _ _ (by decide))
  · rw [String.utf8EncodeChar_eq_cons_cons_cons hthree] at hb
    simp only [List.mem_cons, List.not_mem_nil, or_false] at hb
    rcases hb with rfl | rfl | rfl <;> exact absurd hascii (hhigh _ _ (by decide))
  · rw [String.utf8EncodeChar_eq_cons_cons_cons_cons hfour] at hb
    simp only [List.mem_cons, List.not_mem_nil, or_false] at hb
    rcases hb with rfl | rfl | rfl | rfl <;> exact absurd hascii (hhigh _ _ (by decide))

/-- An ASCII character is in a text exactly if its byte is. -/
theorem mem_utf8_ascii {s : String} {c : Char} (hc : c.toNat < 128) :
    c.val.toUInt8 ∈ utf8 s ↔ c ∈ s.toList := by
  have hbyte : ∀ {d : Char}, d.utf8Size = 1 → d.val.toUInt8.toNat = d.toNat := by
    intro d hd
    rw [Char.utf8Size_eq_one_iff, UInt32.le_iff_toNat_le] at hd
    exact Nat.mod_eq_of_lt (Nat.lt_of_le_of_lt hd (by decide))
  have hsize : c.utf8Size = 1 := by
    rw [Char.utf8Size_eq_one_iff, UInt32.le_iff_toNat_le]
    exact Nat.le_of_lt_succ hc
  have hutf8 : utf8 s = s.toList.flatMap String.utf8EncodeChar := by
    rw [← utf8_ofList, String.ofList_toList]
  rw [hutf8, List.mem_flatMap]
  constructor
  · rintro ⟨d, hd, hmem⟩
    obtain ⟨hdsize, heq⟩ := utf8Size_of_mem hmem (by rwa [hbyte hsize])
    have hsame : c.toNat = d.toNat := by rw [← hbyte hsize, ← hbyte hdsize, heq]
    rwa [Char.toNat_inj.mp hsame]
  · intro hmem
    exact ⟨c, hmem, by rw [String.utf8EncodeChar_eq_singleton hsize]; exact List.mem_singleton_self _⟩

end OsPath

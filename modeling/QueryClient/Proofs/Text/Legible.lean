import Mathlib.Data.List.Infix
import QueryClient.Proofs.Text.Utf8

/-!
# The text that bytes begin with

Bytes are valid UTF-8 exactly when they are those of some characters, one after another
(`isValidUTF8_iff`). Any bytes have a longest front that is valid (`exists_opens`): take characters
off the front for as long as there is one.
-/

namespace QueryClient.Utf8

variable {c d : Char} {cs : List Char} {content left valid : Bytes}

/-! ## Valid bytes -/

/-- A character is written as the standard library writes it. -/
theorem encodeChar_eq_utf8EncodeChar (c : Char) : encodeChar c = String.utf8EncodeChar c := by
  have hvalid : c.toNat < 0xD800 ∨ 0xDFFF < c.toNat ∧ c.toNat < 0x110000 := c.valid
  unfold encodeChar String.utf8EncodeChar
  simp only [Char.toNat] at hvalid ⊢
  generalize c.val.toNat = n at hvalid
  split_ifs
  any_goals omega
  · rfl
  · rw [show n / 64 % 32 + 192 = 0xC0 + n / 64 by omega, Nat.add_comm (n % 64)]
  · rw [show n / 4096 % 16 + 224 = 0xE0 + n / 4096 by omega, Nat.add_comm (n / 64 % 64),
      Nat.add_comm (n % 64)]
  · rw [show n / 262144 % 8 + 240 = 0xF0 + n / 262144 by omega, Nat.add_comm (n / 4096 % 64),
      Nat.add_comm (n / 64 % 64), Nat.add_comm (n % 64)]

/-- **Valid UTF-8** is the bytes of characters, one after another. -/
theorem isValidUTF8_iff {bytes : Bytes} :
    bytes.toByteArray.IsValidUTF8 ↔ ∃ cs : List Char, bytes = cs.flatMap encodeChar := by
  have hencode (cs : List Char) : cs.utf8Encode = (cs.flatMap encodeChar).toByteArray := by
    rw [funext encodeChar_eq_utf8EncodeChar]
    rfl
  constructor
  · rintro ⟨cs, hcs⟩
    refine ⟨cs, ?_⟩
    rw [hencode] at hcs
    exact List.toByteArray_inj.1 hcs
  · rintro ⟨cs, rfl⟩
    exact ⟨cs, (hencode cs).symm⟩

/-- An overlong form, a surrogate, a number past the last code point, a stray byte and a character
that is cut short are not UTF-8. -/
example : ∀ bytes ∈ ([[0xC0, 0x80], [0xED, 0xA0, 0x80], [0xF4, 0x90, 0x80, 0x80], [0x80],
    [0xE2, 0x82]] : List Bytes), ¬ bytes.toByteArray.IsValidUTF8 := by
  decide +kernel

theorem encode_ofList (cs : List Char) : encode (String.ofList cs) = cs.flatMap encodeChar := by
  rw [encode, String.toList_ofList]

/-- Different texts are written differently. -/
theorem encode_injective : Function.Injective encode := by
  intro text other h
  have hread : decode (encode text) = .ok other := decode_eq_ok_iff.2 h
  rw [decode_eq_ok_iff.2 rfl] at hread
  exact Except.ok.inj hread

/-- Two characters in front of the same bytes are the same. -/
theorem eq_of_isPrefix (hc : encodeChar c <+: content) (hd : encodeChar d <+: content) : c = d := by
  obtain ⟨lead, tail, hlead⟩ := List.exists_cons_of_ne_nil (encodeChar_ne_nil c)
  obtain ⟨other, rest, hother⟩ := List.exists_cons_of_ne_nil (encodeChar_ne_nil d)
  rw [hlead] at hc
  rw [hother] at hd
  obtain ⟨after, rfl⟩ := hc
  rw [List.cons_append, List.cons_prefix_cons] at hd
  obtain ⟨rfl, later, hlater⟩ := hd
  have hfront : front _ (tail ++ after) = .char c tail.length := front_of_encodeChar hlead
  rw [← hlater, front_of_encodeChar hother] at hfront
  exact (Front.char.inj hfront).1.symm

/-- A character in front changes nothing about what follows it. -/
theorem isValidUTF8_encodeChar_append : (encodeChar c ++ left).toByteArray.IsValidUTF8 ↔
    left.toByteArray.IsValidUTF8 := by
  simp only [isValidUTF8_iff]
  constructor
  · rintro ⟨cs, hcs⟩
    cases cs with
    | nil => exact absurd (List.append_eq_nil_iff.1 hcs).1 (encodeChar_ne_nil c)
    | cons d cs =>
      obtain rfl : c = d := eq_of_isPrefix (List.prefix_append ..) ⟨_, hcs.symm⟩
      exact ⟨cs, List.append_cancel_left hcs⟩
  · rintro ⟨cs, rfl⟩
    exact ⟨c :: cs, rfl⟩

/-! ## The longest text in front -/

/-- Whether some characters are the longest text that some bytes begin with. -/
structure Opens (cs : List Char) (content : Bytes) : Prop where
  isPrefix : cs.flatMap encodeChar <+: content
  longest : ∀ valid, valid <+: content → valid.toByteArray.IsValidUTF8 →
    valid <+: cs.flatMap encodeChar

namespace Opens

/-- Bytes that no character is in front of begin with no text. -/
theorem nil (h : ∀ c, ¬ encodeChar c <+: content) : Opens [] content where
  isPrefix := List.nil_prefix
  longest valid hvalid hutf := by
    obtain ⟨ds, rfl⟩ := isValidUTF8_iff.1 hutf
    cases ds with
    | nil => exact List.prefix_rfl
    | cons d ds => exact absurd ((List.prefix_append ..).trans hvalid) (h d)

theorem cons (h : Opens cs left) : Opens (c :: cs) (encodeChar c ++ left) where
  isPrefix := (List.prefix_append_right_inj _).2 h.isPrefix
  longest valid hvalid hutf := by
    obtain ⟨ds, rfl⟩ := isValidUTF8_iff.1 hutf
    cases ds with
    | nil => exact List.nil_prefix
    | cons d ds =>
      obtain rfl : d = c :=
        eq_of_isPrefix ((List.prefix_append ..).trans hvalid) (List.prefix_append ..)
      rw [List.flatMap_cons, List.prefix_append_right_inj] at hvalid
      rw [List.flatMap_cons, List.flatMap_cons, List.prefix_append_right_inj]
      exact h.longest _ hvalid (isValidUTF8_iff.2 ⟨ds, rfl⟩)

/-- A character in front is the first one of the text. -/
theorem uncons (h : Opens cs (encodeChar c ++ left)) :
    ∃ later, cs = c :: later ∧ Opens later left := by
  have hfirst : encodeChar c <+: cs.flatMap encodeChar :=
    h.longest _ (List.prefix_append ..) (isValidUTF8_iff.2 ⟨[c], by simp⟩)
  cases cs with
  | nil => exact absurd (List.prefix_nil.1 hfirst) (encodeChar_ne_nil c)
  | cons d later =>
    obtain rfl : c = d := eq_of_isPrefix hfirst (List.prefix_append ..)
    refine ⟨later, rfl, ?_, fun valid hvalid hutf => ?_⟩
    · exact (List.prefix_append_right_inj _).1 h.isPrefix
    · obtain ⟨ds, rfl⟩ := isValidUTF8_iff.1 hutf
      have hlonger := h.longest (encodeChar c ++ ds.flatMap encodeChar)
        ((List.prefix_append_right_inj _).2 hvalid) (isValidUTF8_iff.2 ⟨c :: ds, rfl⟩)
      exact (List.prefix_append_right_inj _).1 hlonger

theorem eq_nil (h : Opens cs content) (hnone : ∀ c, ¬ encodeChar c <+: content) : cs = [] := by
  cases cs with
  | nil => rfl
  | cons c cs => exact absurd ((List.prefix_append ..).trans h.isPrefix) (hnone c)

theorem isValidUTF8_iff (h : Opens cs content) :
    content.toByteArray.IsValidUTF8 ↔ cs.flatMap encodeChar = content := by
  constructor
  · intro hvalid
    exact h.isPrefix.eq_of_length_le (h.longest content List.prefix_rfl hvalid).length_le
  · rintro rfl
    exact Utf8.isValidUTF8_iff.2 ⟨cs, rfl⟩

end Opens

/-- **Any bytes** begin with a longest text. -/
theorem exists_opens (content : Bytes) : ∃ cs, Opens cs content := by
  by_cases h : ∃ c, encodeChar c <+: content
  · obtain ⟨c, left, hleft⟩ := h
    obtain ⟨cs, hcs⟩ := exists_opens left
    exact ⟨c :: cs, hleft ▸ hcs.cons⟩
  · exact ⟨[], .nil (not_exists.1 h)⟩
termination_by content.length
decreasing_by
  have hpos := List.length_pos_iff.2 (encodeChar_ne_nil c)
  rw [← hleft, List.length_append]
  omega

end QueryClient.Utf8

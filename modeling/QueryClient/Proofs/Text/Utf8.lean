import Mathlib.Tactic.SplitIfs
import QueryClient.Text.Utf8

/-!
# UTF-8 read back

What is read from the front of some bytes is a character exactly when the bytes begin with the bytes
of that character, and then a whole text is read from exactly its own bytes.
-/

namespace QueryClient.Utf8

theorem toNat_ofNat_of_valid {n : Nat} (h : n.isValidChar) : (Char.ofNat n).toNat = n := by
  unfold Char.ofNat
  rw [dif_pos h]
  rfl

private theorem toNat_lead {n : Nat} (h : n < 256) : (UInt8.ofNat n).toNat = n :=
  UInt8.toNat_ofNat_of_lt' h

private theorem eq_ofNat {byte : UInt8} {n : Nat} (h : byte.toNat = n) : UInt8.ofNat n = byte := by
  rw [← h, UInt8.ofNat_toNat]

theorem isContinuation_iff {byte : UInt8} :
    isContinuation byte = true ↔ 0x80 ≤ byte.toNat ∧ byte.toNat ≤ 0xBF := by
  simp [isContinuation]

@[simp] theorem toNat_continuation (n : Nat) :
    (UInt8.ofNat (0x80 + n % 64)).toNat = 0x80 + n % 64 :=
  toNat_lead (by omega)

@[simp] theorem isContinuation_continuation (n : Nat) :
    isContinuation (UInt8.ofNat (0x80 + n % 64)) = true := by
  rw [isContinuation_iff, toNat_continuation]
  omega

theorem isSecond_iff {lead byte : UInt8} : isSecond lead byte = true ↔
    0x80 ≤ byte.toNat ∧ byte.toNat ≤ 0xBF ∧ (lead.toNat = 0xE0 → 0xA0 ≤ byte.toNat) ∧
      (lead.toNat = 0xED → byte.toNat ≤ 0x9F) ∧ (lead.toNat = 0xF0 → 0x90 ≤ byte.toNat) ∧
      (lead.toNat = 0xF4 → byte.toNat ≤ 0x8F) := by
  unfold isSecond
  split
  case h_5 hE0 hED hF0 hF4 =>
    change lead.toNat ≠ 0xE0 at hE0
    change lead.toNat ≠ 0xED at hED
    change lead.toNat ≠ 0xF0 at hF0
    change lead.toNat ≠ 0xF4 at hF4
    dsimp only
    rw [isContinuation_iff]
    omega
  all_goals
    simp only [Bool.and_eq_true, decide_eq_true_eq]
    omega

theorem width_eq_one_iff {lead : UInt8} : width lead = some 1 ↔ lead.toNat < 0x80 := by
  unfold width
  simp only [Bool.and_eq_true, decide_eq_true_eq]
  split_ifs <;> simp <;> omega

theorem width_eq_two_iff {lead : UInt8} :
    width lead = some 2 ↔ 0xC2 ≤ lead.toNat ∧ lead.toNat ≤ 0xDF := by
  unfold width
  simp only [Bool.and_eq_true, decide_eq_true_eq]
  split_ifs <;> simp <;> omega

theorem width_eq_three_iff {lead : UInt8} :
    width lead = some 3 ↔ 0xE0 ≤ lead.toNat ∧ lead.toNat ≤ 0xEF := by
  unfold width
  simp only [Bool.and_eq_true, decide_eq_true_eq]
  split_ifs <;> simp <;> omega

theorem width_eq_four_iff {lead : UInt8} :
    width lead = some 4 ↔ 0xF0 ≤ lead.toNat ∧ lead.toNat ≤ 0xF4 := by
  unfold width
  simp only [Bool.and_eq_true, decide_eq_true_eq]
  split_ifs <;> simp <;> omega

section Front

variable {lead : UInt8} {rest : Bytes} {c : Char} {extra : Nat}

/-- The bytes of a character are read back as that character, whatever follows them. -/
theorem front_of_encodeChar {tail : Bytes} (h : encodeChar c = lead :: tail) :
    front lead (tail ++ rest) = .char c tail.length := by
  have hvalid : c.toNat < 0xD800 ∨ 0xDFFF < c.toNat ∧ c.toNat < 0x110000 := c.valid
  have hc : Char.ofNat c.toNat = c := Char.ofNat_toNat c
  generalize hn : c.toNat = n at hvalid hc
  unfold encodeChar at h
  simp only [hn] at h
  split_ifs at h with h1 h2 h3
  · obtain ⟨rfl, rfl⟩ := List.cons.inj h
    have hlead := toNat_lead (by omega : n < 256)
    have hw := width_eq_one_iff.mpr (hlead.symm ▸ h1)
    simp only [front, hw, hlead, hc, List.length_nil]
  · obtain ⟨rfl, rfl⟩ := List.cons.inj h
    have hlead := toNat_lead (by omega : 0xC0 + n / 64 < 256)
    have hw : width (UInt8.ofNat (0xC0 + n / 64)) = some 2 := width_eq_two_iff.mpr (by omega)
    have hsum : (0xC0 + n / 64 - 0xC0) * 64 + (0x80 + n % 64 - 0x80) = n := by omega
    simp only [front, hw, List.cons_append, isContinuation_continuation, if_true, hlead,
      toNat_continuation, hsum, hc, List.length_cons, List.length_nil]
  · obtain ⟨rfl, rfl⟩ := List.cons.inj h
    have hlead := toNat_lead (by omega : 0xE0 + n / 4096 < 256)
    have hw : width (UInt8.ofNat (0xE0 + n / 4096)) = some 3 := width_eq_three_iff.mpr (by omega)
    have hb := toNat_continuation (n / 64)
    have hsecond : isSecond (UInt8.ofNat (0xE0 + n / 4096)) (UInt8.ofNat (0x80 + n / 64 % 64)) :=
      isSecond_iff.mpr (by omega)
    have hsum : (0xE0 + n / 4096 - 0xE0) * 4096 + (0x80 + n / 64 % 64 - 0x80) * 64
        + (0x80 + n % 64 - 0x80) = n := by
      omega
    simp only [front, hw, List.cons_append, hsecond, isContinuation_continuation, Bool.not_true,
      Bool.false_eq_true, if_false, if_true, hlead, toNat_continuation, hsum, hc, List.length_cons,
      List.length_nil]
  · obtain ⟨rfl, rfl⟩ := List.cons.inj h
    have hlead := toNat_lead (by omega : 0xF0 + n / 262144 < 256)
    have hw : width (UInt8.ofNat (0xF0 + n / 262144)) = some 4 := width_eq_four_iff.mpr (by omega)
    have hb := toNat_continuation (n / 4096)
    have hsecond :
        isSecond (UInt8.ofNat (0xF0 + n / 262144)) (UInt8.ofNat (0x80 + n / 4096 % 64)) :=
      isSecond_iff.mpr (by omega)
    have hsum : (0xF0 + n / 262144 - 0xF0) * 262144 + (0x80 + n / 4096 % 64 - 0x80) * 4096
        + (0x80 + n / 64 % 64 - 0x80) * 64 + (0x80 + n % 64 - 0x80) = n := by
      omega
    simp only [front, hw, List.cons_append, hsecond, isContinuation_continuation, Bool.not_true,
      Bool.false_eq_true, if_false, if_true, hlead, toNat_continuation, hsum, hc, List.length_cons,
      List.length_nil]

/-- A character is only read from its own bytes. -/
theorem encodeChar_of_front (h : front lead rest = .char c extra) :
    ∃ tail after, rest = tail ++ after ∧ tail.length = extra ∧ encodeChar c = lead :: tail := by
  unfold front at h
  split at h
  case h_1 => cases h
  case h_2 hw =>
    obtain ⟨rfl, rfl⟩ := Front.char.inj h
    have hlead := width_eq_one_iff.mp hw
    refine ⟨[], rest, rfl, rfl, ?_⟩
    rw [encodeChar, toNat_ofNat_of_valid (.inl (by omega)), if_pos hlead, UInt8.ofNat_toNat]
  case h_3 hw =>
    have hlead := width_eq_two_iff.mp hw
    cases rest with
    | nil => cases h
    | cons b rest =>
      dsimp only at h
      split_ifs at h with hb
      obtain ⟨rfl, rfl⟩ := Front.char.inj h
      rw [isContinuation_iff] at hb
      refine ⟨[b], rest, rfl, rfl, ?_⟩
      rw [encodeChar, toNat_ofNat_of_valid (.inl (by omega)), if_neg (by omega), if_pos (by omega),
        eq_ofNat (by omega : lead.toNat = _), eq_ofNat (by omega : b.toNat = _)]
  case h_4 hw =>
    have hlead := width_eq_three_iff.mp hw
    rcases rest with _ | ⟨b, _ | ⟨d, rest⟩⟩
    · cases h
    · dsimp only at h
      split_ifs at h
    · dsimp only at h
      split_ifs at h with hb hd
      obtain ⟨rfl, rfl⟩ := Front.char.inj h
      rw [Bool.not_eq_true', Bool.not_eq_false, isSecond_iff] at hb
      rw [isContinuation_iff] at hd
      -- the second byte keeps the surrogates out
      have hvalid : ((lead.toNat - 0xE0) * 4096 + (b.toNat - 0x80) * 64
          + (d.toNat - 0x80)).isValidChar := by
        unfold Nat.isValidChar
        omega
      refine ⟨[b, d], rest, rfl, rfl, ?_⟩
      rw [encodeChar, toNat_ofNat_of_valid hvalid, if_neg (by omega), if_neg (by omega),
        if_pos (by omega), eq_ofNat (by omega : lead.toNat = _), eq_ofNat (by omega : b.toNat = _),
        eq_ofNat (by omega : d.toNat = _)]
  case h_5 n h1 h2 h3 hw =>
    have hfour : width lead = some 4 := by
      unfold width at hw ⊢
      dsimp only at hw ⊢
      split_ifs at hw ⊢ <;> simp_all
    have hlead := width_eq_four_iff.mp hfour
    rcases rest with _ | ⟨b, _ | ⟨d, _ | ⟨e, rest⟩⟩⟩
    · cases h
    · dsimp only at h
      split_ifs at h
    · dsimp only at h
      split_ifs at h
    · dsimp only at h
      split_ifs at h with hb hd he
      obtain ⟨rfl, rfl⟩ := Front.char.inj h
      rw [Bool.not_eq_true', Bool.not_eq_false, isSecond_iff] at hb
      rw [Bool.not_eq_true', Bool.not_eq_false, isContinuation_iff] at hd
      rw [isContinuation_iff] at he
      -- the second byte keeps the number up to the last code point
      have hvalid : ((lead.toNat - 0xF0) * 262144 + (b.toNat - 0x80) * 4096
          + (d.toNat - 0x80) * 64 + (e.toNat - 0x80)).isValidChar := by
        unfold Nat.isValidChar
        omega
      refine ⟨[b, d, e], rest, rfl, rfl, ?_⟩
      rw [encodeChar, toNat_ofNat_of_valid hvalid, if_neg (by omega), if_neg (by omega),
        if_neg (by omega), eq_ofNat (by omega : lead.toNat = _), eq_ofNat (by omega : b.toNat = _),
        eq_ofNat (by omega : d.toNat = _), eq_ofNat (by omega : e.toNat = _)]

end Front

theorem encodeChar_ne_nil (c : Char) : encodeChar c ≠ [] := by
  unfold encodeChar
  dsimp only
  split_ifs <;> simp

/-- Reading characters to the end gives those whose bytes are there. -/
theorem scan_eq_ok_iff {index : Nat} {read chars : List Char} {bytes : Bytes} :
    scan index read bytes = .ok chars ↔
      ∃ cs, chars = read.reverse ++ cs ∧ bytes = cs.flatMap encodeChar := by
  match bytes with
  | [] =>
    rw [scan]
    constructor
    · intro h
      exact ⟨[], by simpa using (Except.ok.inj h).symm, rfl⟩
    · rintro ⟨cs, rfl, hcs⟩
      have hnil : cs = [] := by
        cases cs with
        | nil => rfl
        | cons c cs => exact absurd (List.append_eq_nil_iff.mp hcs.symm).1 (encodeChar_ne_nil c)
      rw [hnil, List.append_nil]
  | lead :: rest =>
    rw [scan]
    constructor
    · intro h
      cases hfront : front lead rest with
      | invalid | cut => rw [hfront] at h; cases h
      | char c extra =>
        obtain ⟨tail, after, rfl, rfl, hc⟩ := encodeChar_of_front hfront
        rw [hfront] at h
        dsimp only at h
        rw [List.drop_left] at h
        obtain ⟨cs, rfl, rfl⟩ := scan_eq_ok_iff.mp h
        exact ⟨c :: cs, by simp, by simp [hc]⟩
    · rintro ⟨cs, rfl, hcs⟩
      cases cs with
      | nil => cases hcs
      | cons c cs =>
        obtain ⟨first, tail, hc⟩ := List.exists_cons_of_ne_nil (encodeChar_ne_nil c)
        rw [List.flatMap_cons, hc, List.cons_append] at hcs
        obtain ⟨rfl, rfl⟩ := List.cons.inj hcs
        rw [front_of_encodeChar hc]
        dsimp only
        rw [List.drop_left, scan_eq_ok_iff]
        exact ⟨cs, by simp, rfl⟩
termination_by bytes.length

/-- A text is read from exactly its own bytes. -/
theorem decode_eq_ok_iff {bytes : Bytes} {text : String} :
    decode bytes = .ok text ↔ bytes = encode text := by
  unfold decode encode
  constructor
  · intro h
    cases hscan : scan 0 [] bytes with
    | error defect => rw [hscan] at h; cases h
    | ok chars =>
      rw [hscan] at h
      obtain ⟨cs, rfl, rfl⟩ := scan_eq_ok_iff.mp hscan
      rw [← Except.ok.inj h, String.toList_ofList]
  · rintro rfl
    rw [scan_eq_ok_iff.mpr ⟨text.toList, rfl, rfl⟩, Except.map, List.reverse_nil, List.nil_append,
      String.ofList_toList]

end QueryClient.Utf8

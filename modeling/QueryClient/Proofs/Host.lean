import Mathlib.Data.List.Basic
import Mathlib.Data.List.TakeDrop
import QueryClient.Host

/-!
# Addresses read back

The text of an address gives the address back exactly when its name is not empty and does not begin
with a blank (`Host.Readable`), whatever else the name holds: the port is spelled in digits, so the
last colon of the text is the one before it, and no blank stands at the end. Names that reading gives
are of this sort, so that an address once read is never changed by being written and read again.
-/

namespace QueryClient

/-! ## Blanks -/

namespace Text

variable {cs : List Char}

theorem isBlank_of_isDigit {c : Char} (h : c.isDigit = true) : isBlank c = false := by
  have hrange : 48 ≤ c.toNat ∧ c.toNat ≤ 57 := by
    simpa [Char.isDigit, UInt32.le_iff_toNat_le] using h
  simp only [isBlank, Bool.or_eq_false_iff, Bool.and_eq_false_iff, beq_eq_false_iff_ne,
    decide_eq_false_iff_not]
  omega

theorem dropWhile_isBlank (h : ∀ c ∈ cs.head?, isBlank c = false) : cs.dropWhile isBlank = cs := by
  cases cs with
  | nil => rfl
  | cons c cs => exact List.dropWhile_cons_of_neg (by simp [h c rfl])

/-- What neither begins nor ends with a blank is left as it is. -/
theorem trim_eq_self (hhead : ∀ c ∈ cs.head?, isBlank c = false)
    (hlast : ∀ c ∈ cs.getLast?, isBlank c = false) : trim cs = cs := by
  have hrear : ∀ c ∈ cs.reverse.head?, isBlank c = false := by rwa [List.head?_reverse]
  rw [trim, dropWhile_isBlank hhead, dropWhile_isBlank hrear, List.reverse_reverse]

theorem head?_trim {c : Char} (h : (trim cs).head? = some c) : isBlank c = false := by
  have hfront : trim cs <+: cs.dropWhile isBlank := by
    rw [trim, ← List.reverse_suffix, List.reverse_reverse]
    exact List.dropWhile_suffix _
  have hfirst : (cs.dropWhile isBlank).head? = some c := by
    obtain ⟨rest, hrest⟩ := hfront
    rw [← hrest, List.head?_append, h]
    rfl
  have hstop := List.head?_dropWhile_not isBlank cs
  simpa [hfirst] using hstop

end Text

namespace Host

/-! ## The port -/

variable {host : Host} {cs name port : List Char}

/-- The last colon has none behind it. -/
theorem splitLastColon_eq_some_iff :
    splitLastColon cs = some (name, port) ↔ cs = name ++ ':' :: port ∧ ':' ∉ port := by
  unfold splitLastColon
  rw [List.span_eq_takeWhile_dropWhile]
  constructor
  · intro h
    split at h
    · cases h
    · next after colon before hspan =>
      cases h
      obtain ⟨hafter, hbefore⟩ := Prod.mk.inj hspan
      have hcolon : colon = ':' := by
        have hstop := List.head?_dropWhile_not (· != ':') cs.reverse
        simpa [hbefore] using hstop
      have hwhole : after ++ ':' :: before = cs.reverse := by
        rw [← hcolon, ← hafter, ← hbefore]
        exact List.takeWhile_append_dropWhile
      refine ⟨?_, fun hmem => ?_⟩
      · rw [← List.reverse_reverse cs, ← hwhole]
        simp
      · rw [List.mem_reverse, ← hafter] at hmem
        simpa using List.all_eq_true.1 List.all_takeWhile _ hmem
  · rintro ⟨rfl, hport⟩
    have hdigits : ∀ c ∈ port.reverse, (c != ':') = true := by
      intro c hc
      rw [bne_iff_ne]
      rintro rfl
      exact hport (List.mem_reverse.1 hc)
    rw [List.reverse_append, List.reverse_cons, List.append_assoc,
      List.takeWhile_append_of_pos hdigits, List.dropWhile_append_of_pos hdigits]
    simp

theorem decimal_toDigits (n : Nat) : decimal (Nat.toDigits 10 n) = n := by
  have hfold : decimal (Nat.toDigits 10 n) = Nat.ofDigitChars 10 (Nat.toDigits 10 n) 0 := by
    simp only [decimal, Nat.ofDigitChars, Nat.mul_comm]
  rw [hfold, Nat.ofDigitChars_ten_toDigits]

/-- A port is read back from its digits. -/
theorem port?_toDigits (port : UInt16) : port? (Nat.toDigits 10 port.toNat) = some port := by
  have hdigit : ∀ c ∈ Nat.toDigits 10 port.toNat, c.isDigit = true := fun c =>
    Nat.isDigit_of_mem_toDigits (by decide) (by decide)
  have hunsigned : ∀ rest, Nat.toDigits 10 port.toNat ≠ '+' :: rest := by
    intro rest h
    have hplus := hdigit '+' (by simp [h])
    cases hplus
  unfold port?
  split
  · next rest h => exact absurd h (hunsigned rest)
  · next digits =>
    have hsome : ((Nat.toDigits 10 port.toNat).isEmpty ||
        !(Nat.toDigits 10 port.toNat).all Char.isDigit) = false := by
      rw [Bool.or_eq_false_iff, Bool.not_eq_false', List.all_eq_true]
      exact ⟨by simp, hdigit⟩
    simp only [hsome, decimal_toDigits]
    rw [if_neg (by simp), if_pos port.toNat_lt, UInt16.ofNat_toNat]

/-! ## The address -/

/-- An address whose name is not empty and does not begin with a blank. -/
structure Readable (host : Host) : Prop where
  nonempty : host.name ≠ ""
  head : ∀ c ∈ host.name.toList.head?, Text.isBlank c = false

theorem toList_text (host : Host) :
    host.text.toList = host.name.toList ++ ':' :: Nat.toDigits 10 host.port.toNat := by
  simp [text, Nat.toList_repr]

theorem trim_text (h : host.Readable) : Text.trim host.text.toList = host.text.toList := by
  have hname : host.name.toList ≠ [] := by simpa using h.nonempty
  rw [toList_text]
  apply Text.trim_eq_self
  · rw [List.head?_append_of_ne_nil _ hname]
    exact h.head
  · rw [List.getLast?_append_cons,
      List.getLast?_cons_of_ne_nil Nat.toDigits_ne_nil]
    intro c hc
    exact Text.isBlank_of_isDigit
      (Nat.isDigit_of_mem_toDigits (by decide) (by decide) (List.mem_of_getLast? hc))

theorem parse_text (h : host.Readable) : parse host.text = .ok host := by
  have hsplit : splitLastColon host.text.toList =
      some (host.name.toList, Nat.toDigits 10 host.port.toNat) := by
    refine splitLastColon_eq_some_iff.2 ⟨toList_text host, fun hcolon => ?_⟩
    have hdigit := Nat.isDigit_of_mem_toDigits (by decide) (by decide) hcolon
    cases hdigit
  have hname : host.name.toList ≠ [] := by simpa using h.nonempty
  simp only [parse, trim_text h, hsplit, port?_toDigits, String.ofList_toList]

/-- What reading gives has a name, and the text begins with it, blanks apart. -/
theorem prefix_of_parse {t : String} (h : parse t = .ok host) :
    host.name.toList ≠ [] ∧ host.name.toList <+: Text.trim t.toList := by
  simp only [parse] at h
  cases hsplit : splitLastColon (Text.trim t.toList) with
  | none =>
    simp only [hsplit] at h
    cases hname : Text.trim t.toList with
    | nil => simp [hname] at h
    | cons c cs =>
      simp only [hname] at h
      cases h
      simp
  | some parts =>
    obtain ⟨name, digits⟩ := parts
    obtain ⟨hwhole, -⟩ := splitLastColon_eq_some_iff.1 hsplit
    cases hport : port? digits with
    | none => simp [hsplit, hport] at h
    | some port =>
      simp only [hsplit, hport] at h
      cases name with
      | nil => simp at h
      | cons c cs =>
        cases h
        simp [hwhole]

theorem readable_of_parse {t : String} (h : parse t = .ok host) : host.Readable := by
  obtain ⟨hname, rest, hrest⟩ := prefix_of_parse h
  refine ⟨by simpa using hname, fun c hc => ?_⟩
  rw [← List.head?_append_of_ne_nil _ hname, hrest] at hc
  exact Text.head?_trim hc

/-- Every address with a name that is not empty and does not begin with a blank is read back from its
text, and no other is; and what a text gives, its own text gives again. -/
theorem parse_text_iff (host : Host) :
    (parse host.text = .ok host ↔ host.Readable) ∧
      ∀ t, parse t = .ok host → parse host.text = .ok host :=
  ⟨⟨readable_of_parse, parse_text⟩, fun _ h => parse_text (readable_of_parse h)⟩

/-- A name with colons and digits, and a port that is not spelled the way it is written. -/
theorem parse_text_iff_colons : parse " ::1:+0080\n" = .ok ⟨"::1", 80⟩ ∧
    parse (text ⟨"::1", 80⟩) = .ok ⟨"::1", 80⟩ :=
  ⟨rfl, (parse_text_iff ⟨"::1", 80⟩).2 " ::1:+0080\n" rfl⟩

end Host

end QueryClient

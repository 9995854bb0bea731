import Mathlib.Algebra.Group.Nat.Defs
import QueryClient.Bytes
import QueryClient.Lob.Kind
import QueryClient.Text.Utf8

/-!
# Formats

A format says which bytes may stand in a body for some thing. What a body announces depends on what
it has announced before, so a format also relates the number of large objects announced before to
the kinds of those it announces itself.
-/

namespace QueryClient

/-- What may stand in a body behind so many announced objects: bytes, and the kinds of the objects
that they announce. -/
abbrev Format := (announced : Nat) → Bytes → List LobKind → Prop

namespace Format

variable {α : Type}

/-- These bytes, which announce nothing. -/
def exactly (content : Bytes) : Format := fun _ bytes kinds =>
  bytes = content ∧ kinds = []

/-- The format, under a condition. -/
def given (f : Format) (p : Prop) : Format := fun announced bytes kinds =>
  p ∧ f announced bytes kinds

def either (f g : Format) : Format := fun announced bytes kinds =>
  f announced bytes kinds ∨ g announced bytes kinds

/-- The format of some `a`. -/
def any (f : α → Format) : Format := fun announced bytes kinds =>
  ∃ a, f a announced bytes kinds

/-- One format behind another. -/
def seq (f g : Format) : Format := fun announced bytes kinds =>
  ∃ first firstKinds second secondKinds, f announced first firstKinds ∧
    g (announced + firstKinds.length) second secondKinds ∧ bytes = first ++ second ∧
    kinds = firstKinds ++ secondKinds

/-- Formats one behind another. -/
def fields : List Format → Format
  | [] => exactly []
  | f :: rest => seq f (fields rest)

def byte (n : UInt8) : Format := exactly [n]

def word (width n : Nat) : Format := exactly (Bytes.ofNat width n)

def boolean (b : Bool) : Format := byte (if b then 1 else 0)

def lengthBytes (content : Bytes) : Format :=
  (fields [word 4 content.length, exactly content]).given (content.length < 2 ^ 32)

def text (text : String) : Format := lengthBytes (Utf8.encode text)

def shortText (text : String) : Format :=
  (fields [word 2 (Utf8.size text), exactly (Utf8.encode text)]).given (Utf8.size text < 2 ^ 16)

def optional (f : α → Format) : Option α → Format
  | some a => fields [boolean true, f a]
  | none => boolean false

/-- Formats one behind another, behind their number. -/
def counted (items : List Format) : Format :=
  (fields (word 4 items.length :: items)).given (items.length < 2 ^ 32)

@[simp] theorem given_true (f : Format) : f.given True = f := by
  funext announced bytes kinds
  exact propext (and_iff_right trivial)

theorem given_of {f : Format} {p : Prop} (h : p) : f.given p = f := by
  funext announced bytes kinds
  exact propext (and_iff_right h)

theorem given_congr {f g : Format} {p q : Prop} (h : p ↔ q) (hf : q → f = g) :
    f.given p = g.given q := by
  funext announced bytes kinds
  apply propext
  constructor
  · rintro ⟨hp, hfp⟩
    exact ⟨h.mp hp, hf (h.mp hp) ▸ hfp⟩
  · rintro ⟨hq, hg⟩
    exact ⟨h.mpr hq, (hf hq).symm ▸ hg⟩

theorem given_given (f : Format) (p q : Prop) : (f.given p).given q = f.given (q ∧ p) := by
  funext announced bytes kinds
  exact propext and_assoc.symm

@[simp] theorem seq_exactly_nil (f : Format) : seq f (exactly []) = f := by
  funext announced bytes kinds
  apply propext
  constructor
  · rintro ⟨first, firstKinds, _, _, hf, ⟨rfl, rfl⟩, rfl, rfl⟩
    rwa [List.append_nil, List.append_nil]
  · intro hf
    exact ⟨bytes, kinds, [], [], hf, ⟨rfl, rfl⟩, (List.append_nil _).symm, (List.append_nil _).symm⟩

@[simp] theorem exactly_nil_seq (f : Format) : seq (exactly []) f = f := by
  funext announced bytes kinds
  apply propext
  constructor
  · rintro ⟨_, _, second, secondKinds, ⟨rfl, rfl⟩, hf, rfl, rfl⟩
    exact hf
  · intro hf
    exact ⟨[], [], bytes, kinds, ⟨rfl, rfl⟩, hf, rfl, rfl⟩

theorem seq_given (f g : Format) (p : Prop) : seq f (g.given p) = (seq f g).given p := by
  funext announced bytes kinds
  apply propext
  constructor
  · rintro ⟨first, kinds₁, second, kinds₂, hf, ⟨hp, hg⟩, h⟩
    exact ⟨hp, first, kinds₁, second, kinds₂, hf, hg, h⟩
  · rintro ⟨hp, first, kinds₁, second, kinds₂, hf, hg, h⟩
    exact ⟨first, kinds₁, second, kinds₂, hf, ⟨hp, hg⟩, h⟩

theorem given_seq (f g : Format) (p : Prop) : seq (f.given p) g = (seq f g).given p := by
  funext announced bytes kinds
  apply propext
  constructor
  · rintro ⟨first, kinds₁, second, kinds₂, ⟨hp, hf⟩, h⟩
    exact ⟨hp, first, kinds₁, second, kinds₂, hf, h⟩
  · rintro ⟨hp, first, kinds₁, second, kinds₂, hf, h⟩
    exact ⟨first, kinds₁, second, kinds₂, ⟨hp, hf⟩, h⟩

@[simp] theorem fields_nil : fields [] = exactly [] := rfl

theorem fields_cons (f : Format) (rest : List Format) :
    fields (f :: rest) = seq f (fields rest) := rfl

@[simp] theorem fields_singleton (f : Format) : fields [f] = f := seq_exactly_nil f

/-- A condition on each item is one on all of them. -/
theorem fields_map_given (f : α → Format) (p : α → Prop) (items : List α) :
    fields (items.map fun a => (f a).given (p a)) =
      (fields (items.map f)).given (∀ a ∈ items, p a) := by
  induction items with
  | nil => simp
  | cons a rest ih =>
    rw [List.map_cons, List.map_cons, fields_cons, fields_cons, ih, seq_given, given_seq,
      given_given, List.forall_mem_cons, and_comm]

theorem counted_map_given (f : α → Format) (p : α → Prop) (items : List α) :
    counted (items.map fun a => (f a).given (p a)) =
      (counted (items.map f)).given (∀ a ∈ items, p a) := by
  unfold counted
  rw [fields_cons, fields_cons, fields_map_given, seq_given, given_given, given_given,
    List.length_map, List.length_map, and_comm]

theorem seq_exactly {content : Bytes} {f : Format} {announced : Nat} {bytes : Bytes}
    {kinds : List LobKind} : seq (exactly content) f announced bytes kinds ↔
      ∃ rest, bytes = content ++ rest ∧ f announced rest kinds := by
  constructor
  · rintro ⟨_, _, second, kinds₂, ⟨rfl, rfl⟩, hf, rfl, rfl⟩
    exact ⟨second, rfl, hf⟩
  · rintro ⟨rest, rfl, hf⟩
    exact ⟨content, [], rest, kinds, ⟨rfl, rfl⟩, hf, rfl, rfl⟩

/-- A format of at least one byte. -/
def Solid (f : Format) : Prop :=
  ∀ announced bytes kinds, f announced bytes kinds → bytes ≠ []

theorem Solid.given {f : Format} (h : f.Solid) (p : Prop) : (f.given p).Solid :=
  fun announced bytes kinds hf => h announced bytes kinds hf.2

theorem Solid.seq {f : Format} (h : f.Solid) (g : Format) : (f.seq g).Solid := by
  rintro announced _ _ ⟨first, kinds₁, second, kinds₂, hf, -, rfl, -⟩ hnil
  exact h announced first kinds₁ hf (List.append_eq_nil_iff.mp hnil).1

theorem Solid.fields {f : Format} (h : f.Solid) (rest : List Format) :
    (Format.fields (f :: rest)).Solid :=
  h.seq _

theorem Solid.either {f g : Format} (hf : f.Solid) (hg : g.Solid) : (f.either g).Solid := by
  rintro announced bytes kinds (h | h)
  · exact hf announced bytes kinds h
  · exact hg announced bytes kinds h

theorem solid_exactly {content : Bytes} (h : content ≠ []) : (exactly content).Solid := by
  rintro announced _ _ ⟨rfl, rfl⟩
  exact h

theorem solid_byte (n : UInt8) : (byte n).Solid :=
  solid_exactly (List.cons_ne_nil n [])

theorem solid_word (width n : Nat) : (word (width + 1) n).Solid :=
  solid_exactly (List.cons_ne_nil _ _)

theorem solid_lengthBytes (content : Bytes) : (lengthBytes content).Solid :=
  ((solid_word 3 _).fields _).given _

theorem solid_counted (items : List Format) : (counted items).Solid :=
  ((solid_word 3 _).fields _).given _

/-- Solid formats one behind another take as many bytes as there are formats. -/
theorem length_le_of_fields {items : List Format} (hsolid : ∀ f ∈ items, f.Solid) {announced : Nat}
    {bytes : Bytes} {kinds : List LobKind} (h : fields items announced bytes kinds) :
    items.length ≤ bytes.length := by
  induction items generalizing announced bytes kinds with
  | nil => exact Nat.zero_le _
  | cons f rest ih =>
    obtain ⟨first, kinds₁, second, kinds₂, hf, hrest, rfl, -⟩ := h
    rw [List.forall_mem_cons] at hsolid
    have hfirst := List.length_pos_iff.mpr (hsolid.1 announced first kinds₁ hf)
    have hsecond := ih hsolid.2 hrest
    rw [List.length_append, List.length_cons]
    omega

end Format

end QueryClient

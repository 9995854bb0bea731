import QueryClient.Proofs.Wire.Nesting

/-!
# Where a body names a type

A tag may be a name instead of a code. An encounter says at which names reading may come to such a
tag: behind whatever has been read in full, and inside what has not. The encounters of values follow
the grammar, level by level; a number of values only leads on to them if as many bytes are left.
-/

namespace QueryClient

/-- At which names reading comes to a tag, behind so many announced objects and before these bytes.
-/
abbrev Encounter := (announced : Nat) → Bytes → (name : String) → Prop

namespace Encounter

variable {α : Type}

def never : Encounter := fun _ _ _ => False

def either (h h' : Encounter) : Encounter := fun announced bytes name =>
  h announced bytes name ∨ h' announced bytes name

def any (h : α → Encounter) : Encounter := fun announced bytes name =>
  ∃ a, h a announced bytes name

/-- Behind something that has been read. -/
def behind (f : Format) (h : Encounter) : Encounter := fun announced bytes name =>
  ∃ taken kinds rest, f announced taken kinds ∧ h (announced + kinds.length) rest name ∧
    bytes = taken ++ rest

/-- At one of `n` things that follow one another. -/
def among (f : α → Format) (h : Encounter) (n : Nat) : Encounter := fun announced bytes name =>
  ∃ items : List α, items.length < n ∧
    behind (Format.fields (items.map f)) h announced bytes name

/-- Where as many bytes are left as there are to be things. -/
def believed (n : Nat) (h : Encounter) : Encounter := fun announced bytes name =>
  n ≤ bytes.length ∧ h announced bytes name

/-- Among things behind their number. -/
def counted (f : α → Format) (h : Encounter) : Encounter :=
  any fun n : UInt32 => behind (Format.uint32 n) (among f h n.toNat)

/-- Among things behind their number, if it is believed. -/
def countedValues (f : Value → Format) (h : Encounter) : Encounter :=
  any fun n : UInt32 => behind (Format.uint32 n) (believed n.toNat (among f h n.toNat))

/-- At a tag that is a name, whatever it stands for. -/
def tag : Encounter := fun announced bytes name =>
  behind (Format.fields [Format.byte Kind.byName, Format.shortText name]) (fun _ _ _ => True)
    announced bytes name

variable (allowed : AllowList)

/-- A value that may open so many levels. -/
def valueFormat (levels : Nat) (v : Value) : Format :=
  (Format.value allowed v).given (v.height ≤ levels)

def rowFormat (levels : Nat) (row : Row) : Format :=
  Format.counted (row.map (valueFormat allowed levels))

/-- Inside what follows a tag; `inner` is inside a value that may open `levels` levels. -/
def body (levels : Nat) (inner : Encounter) : Tag → Encounter
  | .foreign _ | .known .list => countedValues (valueFormat allowed levels) inner
  | .known .invocation =>
    behind (Format.any Format.uint64) (behind (Format.any fun s : Service => Format.byte s.code)
      (behind (Format.any Format.shortText) (countedValues (valueFormat allowed levels) inner)))
  | .known .reply =>
    behind (Format.any Format.uint64) (any fun failed =>
      behind (Format.boolean failed) (if failed then tag else inner))
  | .known .request =>
    behind (Format.any Format.int64) (behind (Format.any Format.text)
      (countedValues (valueFormat allowed levels) inner))
  | .known .results =>
    behind (Format.any Format.int64) (behind (Format.any Format.int64)
      (behind (Format.any Format.int64) (behind (Format.any fun columns : List Column =>
          Format.counted (columns.map Format.column))
        (either (counted (rowFormat allowed levels)
            (countedValues (valueFormat allowed levels) inner))
          (behind (Format.any fun rows : List Row =>
              Format.counted (rows.map (rowFormat allowed levels)))
            (behind (Format.any (Format.optional Format.int64))
              (behind (Format.any fun warnings : List String =>
                Format.counted (warnings.map Format.text)) tag)))))))
  | .known _ => never

/-- Inside a value that may open so many levels, or at its own tag. -/
def value : (levels : Nat) → Encounter
  | 0 => tag
  | levels + 1 => either tag (any fun t =>
    behind (Format.tag allowed t) (body allowed levels (value levels) t))

theorem never_either (h : Encounter) : either never h = h := by
  funext announced bytes name
  exact propext (or_iff_right id)

theorem any_behind (f : α → Format) (h : Encounter) :
    (any fun a => behind (f a) h) = behind (Format.any f) h := by
  funext announced bytes name
  apply propext
  constructor
  · rintro ⟨a, taken, kinds, rest, hf, hrest⟩
    exact ⟨taken, kinds, rest, ⟨a, hf⟩, hrest⟩
  · rintro ⟨taken, kinds, rest, ⟨a, hf⟩, hrest⟩
    exact ⟨a, taken, kinds, rest, hf, hrest⟩

theorem behind_seq (f g : Format) (h : Encounter) :
    behind (Format.seq f g) h = behind f (behind g h) := by
  funext announced bytes name
  apply propext
  constructor
  · rintro ⟨_, _, rest, ⟨first, kinds₁, second, kinds₂, hf, hg, rfl, rfl⟩, hh, rfl⟩
    rw [List.length_append, ← Nat.add_assoc] at hh
    exact ⟨first, kinds₁, second ++ rest, hf, ⟨second, kinds₂, rest, hg, hh, rfl⟩,
      List.append_assoc ..⟩
  · rintro ⟨first, kinds₁, _, hf, ⟨second, kinds₂, rest, hg, hh, rfl⟩, rfl⟩
    rw [Nat.add_assoc, ← List.length_append] at hh
    exact ⟨first ++ second, kinds₁ ++ kinds₂, rest,
      ⟨first, kinds₁, second, kinds₂, hf, hg, rfl, rfl⟩, hh, (List.append_assoc ..).symm⟩

theorem behind_nil (h : Encounter) : behind (Format.fields []) h = h := by
  funext announced bytes name
  apply propext
  constructor
  · rintro ⟨_, _, rest, ⟨rfl, rfl⟩, hh, rfl⟩
    exact hh
  · intro hh
    exact ⟨[], [], bytes, ⟨rfl, rfl⟩, hh, rfl⟩

theorem among_zero (f : α → Format) (h : Encounter) : among f h 0 = never := by
  funext announced bytes name
  apply propext
  constructor
  · rintro ⟨items, hlt, -⟩
    exact absurd hlt (Nat.not_lt_zero _)
  · exact False.elim

/-- One of several things is the first, or behind the first one of the others. -/
theorem among_succ (f : α → Format) (h : Encounter) (n : Nat) :
    among f h (n + 1) = either h (any fun a => behind (f a) (among f h n)) := by
  funext announced bytes name
  apply propext
  constructor
  · rintro ⟨_ | ⟨a, items⟩, hlt, hbehind⟩
    · rw [List.map_nil, behind_nil] at hbehind
      exact .inl hbehind
    · rw [List.map_cons, Format.fields_cons, behind_seq] at hbehind
      obtain ⟨taken, kinds, rest, hf, hitems, rfl⟩ := hbehind
      exact .inr ⟨a, taken, kinds, rest, hf, ⟨items, Nat.lt_of_succ_lt_succ hlt, hitems⟩, rfl⟩
  · rintro (hh | ⟨a, taken, kinds, rest, hf, ⟨items, hlt, hitems⟩, rfl⟩)
    · exact ⟨[], Nat.succ_pos n, by rwa [List.map_nil, behind_nil]⟩
    · refine ⟨a :: items, Nat.succ_lt_succ hlt, ?_⟩
      rw [List.map_cons, Format.fields_cons, behind_seq]
      exact ⟨taken, kinds, rest, hf, hitems, rfl⟩

/-- A name behind the code that announces it. -/
def named (name : String) : Encounter := fun _ _ name' => name' = name

/-- A tag as it is read: behind the code that announces a name, that name. -/
theorem any_code : (any fun code => behind (Format.byte code) (if code = Kind.byName then
    any fun name => behind (Format.shortText name) (named name) else never)) = tag := by
  funext announced bytes name
  apply propext
  rw [tag, Format.fields_cons, Format.fields_singleton, behind_seq]
  constructor
  · rintro ⟨code, taken, kinds, rest, hcode, h, rfl⟩
    split_ifs at h with hname
    · subst hname
      obtain ⟨_, taken', kinds', rest', htext, rfl, rfl⟩ := h
      exact ⟨taken, kinds, _, hcode, ⟨taken', kinds', rest', htext, trivial, rfl⟩, rfl⟩
    · exact h.elim
  · rintro ⟨taken, kinds, _, hcode, ⟨taken', kinds', rest', htext, -, rfl⟩, rfl⟩
    refine ⟨Kind.byName, taken, kinds, _, hcode, ?_, rfl⟩
    rw [if_pos rfl]
    exact ⟨name, taken', kinds', rest', htext, rfl, rfl⟩

end Encounter

end QueryClient

import QueryClient.Proofs.Wire.Nesting
import QueryClient.Proofs.Wire.Writing

/-!
# What is written is not mistaken

The grammar has one reading of any bytes. So whatever an encoder writes, even if the names in it are
not permitted where it arrives, is read there as nothing else: the bytes are either those of what
was meant, or none of the things that may stand there begins with them. An encode of which this
holds is put together from its fields, like the formats.
-/

namespace QueryClient

open Format Operation

namespace Format

variable {α β γ : Type} {f : α → Format}

/-- Formats of which no bytes have two readings, whatever follows them. -/
def Unambiguous (f : α → Format) : Prop :=
  ∀ a a' announced bytes bytes' kinds kinds' rest rest', f a announced bytes kinds →
    f a' announced bytes' kinds' → bytes ++ rest = bytes' ++ rest' →
      a = a' ∧ bytes = bytes' ∧ kinds = kinds' ∧ rest = rest'

/-- Bytes at which none of the things begins that may stand there, however they go on. -/
def Dead (f : α → Format) (announced : Nat) (bytes : Bytes) : Prop :=
  ∀ a taken kinds rest rest', f a announced taken kinds → bytes ++ rest ≠ taken ++ rest'

/-- The bytes of one thing, or else dead ones: they are not taken for another. -/
def orDead (f : α → Format) (a : α) : Format := fun announced bytes kinds =>
  f a announced bytes kinds ∨ Dead f announced bytes

end Format

namespace Reads

variable {α : Type} {allowed : AllowList} {f : α → Format}

/-- What decoders read, each within its levels, has one reading. -/
theorem unambiguous_of_levels {r : Nat → Decode α} (height : α → Nat)
    (hr : ∀ levels, Reads allowed (r levels) fun a => (f a).given (height a ≤ levels)) :
    Unambiguous f := by
  intro a a' announced bytes bytes' kinds kinds' rest rest' hf hf' heq
  -- one decoder, with levels enough for both, reads either thing off the same bytes
  let slots : Array LobKind := Array.replicate announced .blob
  have hsize : slots.size = announced := Array.size_replicate
  have hfirst := (hr (max (height a) (height a')) (bytes ++ rest) 0 slots 0 a _).mpr
    ⟨bytes, rest, kinds, rfl, ⟨Nat.le_max_left .., hsize.symm ▸ hf⟩, rfl⟩
  have hsecond := (hr (max (height a) (height a')) (bytes' ++ rest') 0 slots 0 a' _).mpr
    ⟨bytes', rest', kinds', rfl, ⟨Nat.le_max_right .., hsize.symm ▸ hf'⟩, rfl⟩
  rw [heq, hsecond] at hfirst
  obtain ⟨hresult, hstate⟩ := Prod.mk.inj hfirst
  obtain ⟨hreader, hslots, -⟩ := Decoder.mk.inj hstate
  obtain ⟨rfl, -⟩ := Reader.mk.inj hreader
  have hkinds : kinds'.toArray = kinds.toArray := (Array.append_right_inj slots).mp hslots
  exact ⟨(Except.ok.inj hresult).symm, List.append_cancel_right heq,
    (congrArg Array.toList hkinds).symm, rfl⟩

theorem unambiguous {r : Decode α} (hr : Reads allowed r f) : Unambiguous f :=
  unambiguous_of_levels (fun _ => 0) fun _ =>
    hr.congr fun _ => (given_of (Nat.zero_le _)).symm

end Reads

namespace Format

variable {α γ : Type} {allowed : AllowList} {f : α → Format} {announced : Nat} {bytes : Bytes}
  {kinds : List LobKind}

theorem unambiguous_uint64 : Unambiguous uint64 :=
  (Reads.uint64 : Reads .empty _ _).unambiguous

theorem unambiguous_int64 : Unambiguous int64 :=
  (Reads.int64 : Reads .empty _ _).unambiguous

theorem unambiguous_boolean : Unambiguous boolean :=
  (Reads.boolean : Reads .empty _ _).unambiguous

theorem unambiguous_service : Unambiguous fun service : Service => byte service.code :=
  (Reads.coded Service.ofCode_eq_ok_iff : Reads .empty _ _).unambiguous

theorem unambiguous_text : Unambiguous text :=
  (Reads.string : Reads .empty _ _).unambiguous

theorem unambiguous_shortText : Unambiguous shortText :=
  (Reads.shortString : Reads .empty _ _).unambiguous

theorem unambiguous_columns :
    Unambiguous fun columns : List Column => counted (columns.map column) :=
  (Reads.behindCount (Reads.column.times_nil ·) : Reads .empty _ _).unambiguous

theorem unambiguous_tag : Unambiguous (tag allowed) := Reads.tag.unambiguous

theorem unambiguous_value : Unambiguous (value allowed) :=
  Reads.unambiguous_of_levels Value.height Reads.valueWithin

theorem unambiguous_values :
    Unambiguous fun items : List Value => counted (items.map (value allowed)) :=
  Reads.unambiguous_of_levels heightOfEach fun levels =>
    (Reads.countedValues (Reads.valueWithin levels)).congr fun items => by
      rw [heightOfEach_le_iff]

theorem unambiguous_rows : Unambiguous fun cells : List Row =>
    counted (cells.map fun row => counted (row.map (value allowed))) :=
  Reads.unambiguous_of_levels heightOfRows fun levels =>
    (Reads.behindCount ((Reads.countedValues (Reads.valueWithin levels)).times_nil ·)).congr
      fun cells => by rw [counted_map_given, heightOfRows_le_iff]

/-- Dead bytes are some, if any of the things can be written. -/
theorem solid_orDead (hsolid : ∀ a, (f a).Solid)
    (hsome : ∀ announced, ∃ a taken kinds, f a announced taken kinds) (a : α) :
    (orDead f a).Solid := by
  rintro announced _ kinds (hf | hdead) rfl
  · exact hsolid a announced [] kinds hf rfl
  · obtain ⟨a', taken, kinds', hf⟩ := hsome announced
    exact hdead a' taken kinds' taken [] hf (List.append_nil _).symm

/-- What is not mistaken as one of some things is not mistaken as one of more, if those are the only
ones with the tag or the fields that came before. -/
theorem orDead_map {g : γ → Format} {q : γ → Prop} (φ : α → γ) (hto : ∀ c, q c → ∃ a, c = φ a)
    (hg : ∀ a, g (φ a) = f a) {a : α} (hq : q (φ a)) (h : orDead f a announced bytes kinds) :
    orDead (fun c => (g c).given (q c)) (φ a) announced bytes kinds := by
  rcases h with hf | hdead
  · exact .inl ⟨hq, (hg a).symm ▸ hf⟩
  · refine .inr ?_
    rintro c taken kinds' rest rest' ⟨hqc, hgc⟩
    obtain ⟨a', rfl⟩ := hto c hqc
    exact hdead a' taken kinds' rest rest' (hg a' ▸ hgc)

/-- A field and the others behind it, as the whole record. -/
theorem orDead_cons {c : γ} {q : γ → Prop} {rest : γ → List Format} (π : γ → α)
    (hu : Unambiguous f)
    (h : seq (orDead f (π c)) (orDead (fun c' => (fields (rest c')).given (q c' ∧ π c' = π c)) c)
      announced bytes kinds) :
    orDead (fun c' => (fields (f (π c') :: rest c')).given (q c')) c announced bytes kinds := by
  obtain ⟨first, kinds₁, second, kinds₂, hf | hdead, hsecond, rfl, rfl⟩ := h
  -- behind a field that is read as meant, only records with that very field remain
  · rcases hsecond with ⟨⟨hq, -⟩, hrest⟩ | hdead
    · exact .inl ⟨hq, first, kinds₁, second, kinds₂, hf, hrest, rfl, rfl⟩
    · refine .inr ?_
      rintro c' _ _ after after' ⟨hq, first', kinds₁', second', kinds₂', hf', hrest', rfl, rfl⟩ heq
      rw [List.append_assoc, List.append_assoc] at heq
      obtain ⟨hπ, -, rfl, hafter⟩ := hu _ _ _ _ _ _ _ _ _ hf hf' heq
      exact hdead c' second' kinds₂' after after' ⟨⟨hq, hπ.symm⟩, hrest'⟩ hafter
  · refine .inr ?_
    rintro c' _ _ after after' ⟨hq, first', kinds₁', second', kinds₂', hf', hrest', rfl, rfl⟩ heq
    rw [List.append_assoc, List.append_assoc] at heq
    exact hdead (π c') first' kinds₁' (second ++ after) (second' ++ after') hf' heq

/-- Things one behind another, none of them mistaken, are not taken for as many others. -/
theorem orDead_fields (hu : Unambiguous f) {items : List α}
    (h : fields (items.map (orDead f)) announced bytes kinds) :
    fields (items.map f) announced bytes kinds ∨ ∀ others : List α, others.length = items.length →
      ∀ taken kinds' rest rest', fields (others.map f) announced taken kinds' →
        bytes ++ rest ≠ taken ++ rest' := by
  induction items generalizing announced bytes kinds with
  | nil => exact .inl h
  | cons a items ih =>
    obtain ⟨first, kinds₁, second, kinds₂, hf | hdead, hsecond, rfl, rfl⟩ := h
    · rcases ih hsecond with hitems | hdead
      · exact .inl ⟨first, kinds₁, second, kinds₂, hf, hitems, rfl, rfl⟩
      · refine .inr ?_
        rintro (_ | ⟨a', others⟩) hlength
        · cases hlength
        rintro _ _ rest rest' ⟨first', kinds₁', second', kinds₂', hf', hothers, rfl, rfl⟩ heq
        rw [List.append_assoc, List.append_assoc] at heq
        obtain ⟨-, -, rfl, hrest⟩ := hu _ _ _ _ _ _ _ _ _ hf hf' heq
        exact hdead others (Nat.succ.inj hlength) second' kinds₂' rest rest' hothers hrest
    · refine .inr ?_
      rintro (_ | ⟨a', others⟩) hlength
      · cases hlength
      rintro _ _ rest rest' ⟨first', kinds₁', second', kinds₂', hf', hothers, rfl, rfl⟩ heq
      rw [List.append_assoc, List.append_assoc] at heq
      exact hdead a' first' kinds₁' (second ++ rest) (second' ++ rest') hf' heq

theorem orDead_counted (hu : Unambiguous f) {items : List α}
    (h : counted (items.map (orDead f)) announced bytes kinds) :
    orDead (fun items' : List α => counted (items'.map f)) items announced bytes kinds := by
  obtain ⟨hlt, hfields⟩ := h
  obtain ⟨content, rfl, hitems⟩ := seq_exactly.mp hfields
  rw [List.length_map] at hlt
  rcases orDead_fields hu hitems with hitems | hdead
  · refine .inl ⟨by rwa [List.length_map], seq_exactly.mpr ⟨content, ?_, hitems⟩⟩
    rw [List.length_map, List.length_map]
  · refine .inr ?_
    rintro others _ kinds' rest rest' ⟨hlt', hfields'⟩ heq
    obtain ⟨content', rfl, hothers⟩ := seq_exactly.mp hfields'
    rw [List.length_map] at hlt' heq
    rw [List.append_assoc, List.append_assoc, List.length_map] at heq
    obtain ⟨hcount, hrest⟩ := List.append_inj heq (by simp)
    have hlength : items.length = others.length := by
      have hfits : items.length < 256 ^ 4 := hlt
      rw [← Bytes.toNat_ofNat hfits, hcount, Bytes.toNat_ofNat hlt']
    exact hdead others hlength.symm content' kinds' rest rest' hothers hrest

/-- A foreign name that stands for no kind is not mistaken for one, whether or not it is permitted.
-/
theorem orDead_foreign {name : String} (hname : ∀ kind : Kind, name ≠ kind.name)
    (h : fields [byte Kind.byName, shortText name] announced bytes kinds) :
    orDead (tag allowed) (.foreign name) announced bytes kinds := by
  by_cases hresolve : allowed.resolve name = .ok none
  · exact .inl ⟨hresolve, h⟩
  · refine .inr ?_
    -- whichever tag begins like this one has the same name: a kind has another, and no list may
    -- permit a name and refuse it
    obtain ⟨content, rfl, htext⟩ := seq_exactly.mp h
    rw [fields_singleton] at htext
    have hsame : ∀ name' taken kinds' rest rest',
        fields [byte Kind.byName, shortText name'] announced taken kinds' →
          [Kind.byName] ++ content ++ rest = taken ++ rest' → name = name' := by
      intro name' _ kinds' rest rest' h' heq
      obtain ⟨content', rfl, htext'⟩ := seq_exactly.mp h'
      rw [fields_singleton] at htext'
      have hafter : content ++ rest = content' ++ rest' := (List.cons.inj heq).2
      exact (unambiguous_shortText _ _ _ _ _ _ _ _ _ htext htext' hafter).1
    rintro (kind | name') taken kinds' rest rest' h' heq
    · rcases h' with ⟨rfl, -⟩ | h'
      · exact Kind.code_ne_byName kind (List.cons.inj heq).1.symm
      · exact hname kind (hsame _ _ _ _ _ h' heq)
    · obtain ⟨hresolve', h'⟩ := h'
      obtain rfl := hsame _ _ _ _ _ h' heq
      exact hresolve hresolve'

end Format

namespace Emits

variable {α γ : Type} {allowed : AllowList} {limit : Nat} {e e' : Encode Unit} {f : α → Format}
  {c : γ} {q : γ → Prop} {rest : γ → List Format} {contents contents' : List Bytes}

theorem alive {g : Format} {a : α} (hf : f a = g) (he : Emits limit e g contents) :
    Emits limit e (orDead f a) contents :=
  he.mono fun _ _ _ h => .inl (hf.symm ▸ h)

/-- A field that is not mistaken, written before the others. -/
theorem fieldOrDead (π : γ → α) (hu : Unambiguous f) (he : Emits limit e (orDead f (π c)) contents)
    (hrest : Emits limit e' (orDead (fun c' => (fields (rest c')).given (q c' ∧ π c' = π c)) c)
      contents') :
    Emits limit (e >>= fun _ => e')
      (orDead (fun c' => (fields (f (π c') :: rest c')).given (q c')) c) (contents ++ contents') :=
  (he.seq hrest).mono fun _ _ _ => orDead_cons π hu

/-- A field that names nothing, written before the others. -/
theorem headField (π : γ → α) (hu : Unambiguous f) (he : Emits limit e (f (π c)) [])
    (hrest : Emits limit e' (orDead (fun c' => (fields (rest c')).given (q c' ∧ π c' = π c)) c)
      contents') :
    Emits limit (e >>= fun _ => e')
      (orDead (fun c' => (fields (f (π c') :: rest c')).given (q c')) c) contents' :=
  fieldOrDead π hu (alive rfl he) hrest

/-- Fields that name nothing, written behind the others. -/
theorem tailFields (hq : q c) (he : Emits limit e (fields (rest c)) contents) :
    Emits limit e (orDead (fun c' => (fields (rest c')).given (q c')) c) contents :=
  he.mono fun _ _ _ h => .inl ⟨hq, h⟩

theorem lastField (π : γ → α) (hq : q c) (he : Emits limit e (orDead f (π c)) contents) :
    Emits limit e (orDead (fun c' => (fields [f (π c')]).given (q c')) c) contents := by
  apply he.mono
  simp only [fields_singleton]
  rintro announced bytes kinds (hf | hdead)
  · exact .inl ⟨hq, hf⟩
  · exact .inr fun c' taken kinds' rest rest' h =>
      hdead (π c') taken kinds' rest rest' h.2

end Emits

end QueryClient

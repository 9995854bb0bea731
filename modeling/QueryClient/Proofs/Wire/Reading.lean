import QueryClient.Proofs.Bytes
import QueryClient.Proofs.Text.Utf8
import QueryClient.Proofs.Wire.Grammar
import QueryClient.Proofs.Wire.Operation

/-!
# Reads that follow a format

`Reads` says that a read succeeds exactly on the bytes of a format, takes all of them and nothing
that follows, and records the objects they announce. It is put together along the text of the read,
and soundness and completeness go through together.
-/

namespace QueryClient

open Format Operation

variable {α β γ : Type} {allowed : AllowList} {r : Decode α} {f : α → Format} {p : γ → Prop}

/-- A read that takes the bytes of a format, and fails on any others. -/
def Reads (allowed : AllowList) (r : Decode α) (f : α → Format) : Prop :=
  ∀ bytes pos slots depth a e, r ⟨⟨bytes, pos⟩, slots, depth, allowed⟩ = (.ok a, e) ↔
    ∃ taken rest kinds, bytes = taken ++ rest ∧ f a slots.size taken kinds ∧
      e = ⟨⟨rest, pos + taken.length⟩, slots ++ kinds.toArray, depth, allowed⟩

theorem append_kinds (slots : Array LobKind) (first second : List LobKind) :
    slots ++ (first ++ second).toArray = slots ++ first.toArray ++ second.toArray := by
  simp

namespace Reads

theorem congr {f' : α → Format} (hr : Reads allowed r f) (h : ∀ a, f a = f' a) :
    Reads allowed r f' := by
  have hf : f = f' := funext h
  rwa [hf] at hr

/-- Two reads, the format of the second depending on what the first has read. -/
theorem bind {g : α → Decode γ} {h : α → γ → Format} (hr : Reads allowed r f)
    (hg : ∀ a, Reads allowed (g a) (h a)) :
    Reads allowed (r >>= g) fun c => any fun a => seq (f a) (h a c) := by
  intro bytes pos slots depth c e
  rw [bind_eq_ok_iff]
  constructor
  · rintro ⟨a, d, hfirst, hsecond⟩
    obtain ⟨first, between, kinds₁, rfl, hf, rfl⟩ := (hr ..).mp hfirst
    obtain ⟨second, rest, kinds₂, rfl, hh, rfl⟩ := (hg ..).mp hsecond
    rw [Array.size_append, List.size_toArray] at hh
    refine ⟨first ++ second, rest, kinds₁ ++ kinds₂, (List.append_assoc ..).symm,
      ⟨a, first, kinds₁, second, kinds₂, hf, hh, rfl, rfl⟩, ?_⟩
    rw [List.length_append, append_kinds, Nat.add_assoc]
  · rintro ⟨_, rest, _, rfl, ⟨a, first, kinds₁, second, kinds₂, hf, hh, rfl, rfl⟩, rfl⟩
    refine ⟨a, ⟨⟨second ++ rest, pos + first.length⟩, slots ++ kinds₁.toArray, depth, allowed⟩,
      (hr ..).mpr ⟨first, second ++ rest, kinds₁, List.append_assoc .., hf, rfl⟩,
      (hg ..).mpr ⟨second, rest, kinds₂, rfl, ?_, ?_⟩⟩
    · rwa [Array.size_append, List.size_toArray]
    · rw [List.length_append, append_kinds, Nat.add_assoc]

/-- A part of a whole, read first; `related` says which parts the whole may have. -/
theorem part (related : α → γ → Prop) {g : α → Decode γ} {rest : γ → List Format}
    (hr : Reads allowed r f)
    (hg : ∀ a, Reads allowed (g a) fun c => (fields (rest c)).given (p c ∧ related a c)) :
    Reads allowed (r >>= g) fun c =>
      (fields (any (fun a => (f a).given (related a c)) :: rest c)).given (p c) := by
  apply (hr.bind hg).congr
  intro c
  funext announced bytes kinds
  apply propext
  constructor
  · rintro ⟨a, first, kinds₁, second, kinds₂, hf, ⟨⟨hp, hrel⟩, hh⟩, h⟩
    exact ⟨hp, first, kinds₁, second, kinds₂, ⟨a, hrel, hf⟩, hh, h⟩
  · rintro ⟨hp, first, kinds₁, second, kinds₂, ⟨a, hrel, hf⟩, hh, h⟩
    exact ⟨a, first, kinds₁, second, kinds₂, hf, ⟨⟨hp, hrel⟩, hh⟩, h⟩

/-- A field of a record, read first. -/
theorem field (π : γ → α) {g : α → Decode γ} {rest : γ → List Format} (hr : Reads allowed r f)
    (hg : ∀ a, Reads allowed (g a) fun c => (fields (rest c)).given (p c ∧ a = π c)) :
    Reads allowed (r >>= g) fun c => (fields (f (π c) :: rest c)).given (p c) := by
  apply (hr.part (fun a c => a = π c) hg).congr
  intro c
  have hany : any (fun a => (f a).given (a = π c)) = f (π c) := by
    funext announced bytes kinds
    apply propext
    constructor
    · rintro ⟨_, rfl, hf⟩
      exact hf
    · intro hf
      exact ⟨π c, rfl, hf⟩
  rw [hany]

/-- A record begins with none of its fields read. -/
theorem record {fs : α → List Format} (hr : Reads allowed r fun a => (fields (fs a)).given True) :
    Reads allowed r fun a => fields (fs a) :=
  hr.congr fun _ => given_true _

/-- A record of which every field has been read. -/
theorem done {c : γ} (h : ∀ c', p c' ↔ c' = c) :
    Reads allowed (Pure.pure c) fun c' => (fields []).given (p c') := by
  intro bytes pos slots depth c' e
  rw [pure_eq_ok_iff, ← h c']
  constructor
  · rintro ⟨hp, rfl⟩
    exact ⟨[], bytes, [], rfl, ⟨hp, rfl, rfl⟩, by simp⟩
  · rintro ⟨_, rest, _, rfl, ⟨hp, rfl, rfl⟩, rfl⟩
    exact ⟨hp, by simp⟩

/-- What is read, put into another form. -/
theorem map {q : α → Prop} (φ : α → γ) {t : γ → Format}
    (hr : Reads allowed r fun a => (f a).given (q a))
    (hfrom : ∀ a, q a → p (φ a) ∧ t (φ a) = f a) (hto : ∀ c, p c → ∃ a, q a ∧ c = φ a) :
    Reads allowed (r >>= fun a => Pure.pure (φ a)) fun c => (t c).given (p c) := by
  intro bytes pos slots depth c e
  rw [bind_eq_ok_iff]
  constructor
  · rintro ⟨a, d, hfirst, hsecond⟩
    obtain ⟨taken, rest, kinds, rfl, ⟨hq, hf⟩, rfl⟩ := (hr ..).mp hfirst
    obtain ⟨rfl, rfl⟩ := pure_eq_ok_iff.mp hsecond
    obtain ⟨hp, ht⟩ := hfrom a hq
    exact ⟨taken, rest, kinds, rfl, ⟨hp, ht ▸ hf⟩, rfl⟩
  · rintro ⟨taken, rest, kinds, rfl, ⟨hp, ht⟩, rfl⟩
    obtain ⟨a, hq, rfl⟩ := hto c hp
    rw [(hfrom a hq).2] at ht
    exact ⟨a, _, (hr ..).mpr ⟨taken, rest, kinds, rfl, ⟨hq, ht⟩, rfl⟩,
      pure_eq_ok_iff.mpr ⟨rfl, rfl⟩⟩

/-- What is read, put into an equivalent form. -/
theorem equiv {φ : α → γ} {ψ : γ → α} (hr : Reads allowed r f) (hψ : ∀ a, ψ (φ a) = a)
    (hφ : ∀ c, φ (ψ c) = c) :
    Reads allowed (r >>= fun a => Pure.pure (φ a)) fun c => f (ψ c) := by
  have hall : Reads allowed r fun a => (f a).given True := hr.congr fun a => (given_true _).symm
  refine (hall.map (p := fun _ => True) (t := fun c => f (ψ c)) φ ?_ ?_).congr fun c => given_true _
  · intro a _
    exact ⟨trivial, by rw [hψ]⟩
  · intro c _
    exact ⟨ψ c, trivial, (hφ c).symm⟩

/-- A read that always fails. -/
theorem throw (fault : Fault) (h : ∀ c, ¬ p c) {t : γ → Format} :
    Reads allowed (MonadExcept.throw fault) fun c => (t c).given (p c) := by
  intro bytes pos slots depth c e
  constructor
  · intro h
    cases h
  · rintro ⟨taken, rest, kinds, -, ⟨hp, -⟩, -⟩
    exact absurd hp (h c)

end Reads

namespace Decode

theorem liftM_apply (r : Read α) (reader : Reader) (slots : Array LobKind) (depth : Nat) :
    (liftM r : Decode α) ⟨reader, slots, depth, allowed⟩ =
      ((r reader).1, ⟨(r reader).2, slots, depth, allowed⟩) := rfl

@[simp] theorem liftM_pure (a : α) : (liftM (pure a : Read α) : Decode α) = pure a := rfl

@[simp] theorem liftM_bind (r : Read α) (g : α → Read β) :
    (liftM (r >>= g) : Decode β) = liftM r >>= fun a => liftM (g a) := by
  funext ⟨reader, slots, depth, allowed⟩
  rw [liftM_apply]
  rcases hr : r reader with ⟨fault | a, reader'⟩
  · rw [bind_of_error hr, bind_of_error (by rw [liftM_apply, hr])]
  · rw [bind_of_ok hr, bind_of_ok (by rw [liftM_apply, hr])]
    rfl

theorem liftM_times (r : Read α) (n : Nat) (before : List α) :
    (liftM (Reader.times r n before) : Decode (List α)) = Decoder.times (liftM r) n before := by
  induction n generalizing before with
  | zero => rfl
  | succ n ih => simp only [Reader.times, Decoder.times, liftM_bind, ih]

end Decode

end QueryClient

import Mathlib.Tactic.SplitIfs
import QueryClient.Proofs.Wire.Encoding

/-!
# Encoding follows the grammar

`Emits` says that an encode which succeeds within its limit has added bytes of a format to the body,
and has kept aside one content for each object they announce. What an encoder writes within its
limit is thus spelled by the grammar, for the message as a body says it, as long as the names of
foreign values are permitted.
-/

namespace QueryClient

open Format Operation

variable {limit : Nat} {e e' : Encode Unit} {f g : Format} {fs : List Format}
  {contents contents' : List Bytes}

/-- An encode that, if it succeeds, writes a format and keeps some contents aside. -/
def Emits (limit : Nat) (e : Encode Unit) (f : Format) (contents : List Bytes) : Prop :=
  ∀ written streams byCode after, written.size ≤ limit →
    e ⟨⟨written, some limit⟩, streams, byCode⟩ = (.ok (), after) →
    ∃ bytes kinds, f streams.size bytes kinds ∧ kinds.length = contents.length ∧
      written.size + bytes.length ≤ limit ∧
      after = ⟨⟨written ++ bytes.toArray, some limit⟩, streams ++ contents.toArray, byCode⟩

namespace Emits

theorem congr (he : Emits limit e f contents) (hf : f = g) : Emits limit e g contents :=
  hf ▸ he

theorem mono (he : Emits limit e f contents)
    (h : ∀ announced bytes kinds, f announced bytes kinds → g announced bytes kinds) :
    Emits limit e g contents := by
  intro written streams byCode after hsize hrun
  obtain ⟨bytes, kinds, hf, hrest⟩ := he written streams byCode after hsize hrun
  exact ⟨bytes, kinds, h _ _ _ hf, hrest⟩

theorem seq (he : Emits limit e f contents) (he' : Emits limit e' g contents') :
    Emits limit (e >>= fun _ => e') (seq f g) (contents ++ contents') := by
  intro written streams byCode after hsize hrun
  obtain ⟨⟨⟩, between, hfirst, hsecond⟩ := bind_eq_ok_iff.mp hrun
  obtain ⟨first, kinds₁, hf, hkinds₁, hsize₁, rfl⟩ := he _ _ _ _ hsize hfirst
  have hsize' : (written ++ first.toArray).size ≤ limit := by simpa using hsize₁
  obtain ⟨second, kinds₂, hg, hkinds₂, hsize₂, rfl⟩ := he' _ _ _ _ hsize' hsecond
  have hannounced : (streams ++ contents.toArray).size = streams.size + kinds₁.length := by
    simp [hkinds₁]
  rw [hannounced] at hg
  have hwritten : (written ++ first.toArray).size = written.size + first.length := by simp
  refine ⟨first ++ second, kinds₁ ++ kinds₂, ⟨first, kinds₁, second, kinds₂, hf, hg, rfl, rfl⟩, ?_,
    ?_, by simp⟩
  · rw [List.length_append, List.length_append, hkinds₁, hkinds₂]
  · rw [List.length_append]
    omega

theorem pure : Emits limit (Pure.pure ()) (fields []) [] := by
  intro written streams byCode after hsize hrun
  obtain ⟨-, rfl⟩ := pure_eq_ok_iff.mp hrun
  exact ⟨[], [], ⟨rfl, rfl⟩, rfl, hsize, by simp⟩

theorem throw (fault : Fault) : Emits limit (MonadExcept.throw fault) f contents := by
  intro written streams byCode after hsize hrun
  cases hrun

theorem put (content : Bytes) : Emits limit (liftM (Writer.put content)) (exactly content) [] := by
  intro written streams byCode after hsize hrun
  rw [Encode.liftM_apply, Writer.put] at hrun
  split_ifs at hrun with hfull
  · cases hrun
  · cases hrun
    have hfits : ¬ limit < written.size + content.length := by simpa [Writer.isFullFor] using hfull
    exact ⟨content, [], ⟨rfl, rfl⟩, rfl, by omega,
      by rw [Bytes.append_toArray, Array.append_empty]⟩

theorem guarded {p : Prop} [Decidable p] (fault : Fault) (he : p → Emits limit e f contents) :
    Emits limit (if p then e else MonadExcept.throw fault) (f.given p) contents := by
  by_cases hp : p
  · rw [if_pos hp, given_of hp]
    exact he hp
  · rw [if_neg hp]
    exact throw fault

theorem sequential : Encode.Sequential (Emits limit) where
  seq := seq
  pure := pure
  put := put
  guarded := guarded

/-- The number of things is not cut short: there are no more of them than bytes. -/
theorem counted (hlimit : limit < 2 ^ 32) (hsolid : ∀ f ∈ fs, f.Solid)
    (he : Emits limit e (fields fs) contents) :
    Emits limit (liftM (Writer.word 4 fs.length) >>= fun _ => e) (Format.counted fs) contents := by
  intro written streams byCode after hsize hrun
  obtain ⟨bytes, kinds, hf, hrest⟩ :=
    (sequential.field (sequential.word 4 fs.length) he) _ _ _ _ hsize hrun
  refine ⟨bytes, kinds, ⟨?_, hf⟩, hrest⟩
  obtain ⟨rest, rfl, hitems⟩ := seq_exactly.mp hf
  have hlength := length_le_of_fields hsolid hitems
  have hfits := hrest.2.1
  rw [List.length_append] at hfits
  omega

variable {allowed : AllowList}

theorem tag (kind : Kind) :
    Emits limit (Encoder.tag kind) (Format.tag allowed (.known kind)) [] := by
  intro written streams byCode after hsize hrun
  have happly : Encoder.tag kind ⟨⟨written, some limit⟩, streams, byCode⟩ =
      (if byCode then liftM (Writer.uint8 kind.code) else Encoder.nameTag kind.name : Encode Unit)
        ⟨⟨written, some limit⟩, streams, byCode⟩ := rfl
  rw [happly] at hrun
  cases byCode with
  | true =>
    exact (sequential.uint8 _).mono (fun _ _ _ => .inl) written streams true after hsize hrun
  | false =>
    exact (sequential.nameTag _).mono (fun _ _ _ => .inr) written streams false after hsize hrun

/-- The number of the next object, written as such, announces it. -/
theorem announces {f g : Format} {kind : LobKind} {n : Nat} {bytes : Bytes} (hn : n < 2 ^ 16)
    (h : fields [f, g, Format.word 2 n] n bytes []) :
    fields [f, g, stream kind] n bytes [kind] := by
  obtain ⟨first, kinds₁, _, _, hf, ⟨second, kinds₂, _, _, hg, hword, rfl, rfl⟩, rfl, hkinds⟩ := h
  rw [fields_singleton] at hword
  obtain ⟨rfl, rfl⟩ := hword
  obtain ⟨rfl, hrest⟩ := List.append_eq_nil_iff.mp hkinds.symm
  obtain ⟨rfl, -⟩ := List.append_eq_nil_iff.mp hrest
  refine ⟨first, [], _, [kind], hf, ⟨second, [], _, [kind], hg, ?_, rfl, rfl⟩, rfl, rfl⟩
  rw [fields_singleton]
  exact ⟨hn, rfl, rfl⟩

theorem lob (l : Lob) : Emits limit (Encoder.lob l)
    (fields [Format.tag allowed (.known .streamReference), byte l.kind.code, stream l.kind])
    l.content.toList := by
  intro written streams byCode after hsize hrun
  obtain ⟨kind, _ | content⟩ := l
  · cases hrun
  rw [Encode.lob_apply] at hrun
  split_ifs at hrun with hcount
  · obtain ⟨⟨⟩, between, hfirst, hsecond⟩ := bind_eq_ok_iff.mp hrun
    obtain ⟨bytes, kinds, hf, hkinds, hfits, rfl⟩ :=
      (sequential.field (tag _) (sequential.field (sequential.uint8 _)
        (Encode.Sequential.last (sequential.word 2 _)))) _ _ _ _ hsize hfirst
    cases List.eq_nil_of_length_eq_zero hkinds
    cases hsecond
    exact ⟨bytes, [kind], announces hcount hf, rfl, hfits, by simp⟩
  · cases hrun

theorem timeout (t : Option Duration) :
    Emits limit (liftM (Writer.word 8 ((t.map Duration.wholeMilliseconds).getD 0)))
      (Format.timeout (sentTimeout t)) [] := by
  apply (sequential.word 8 _).mono
  intro announced bytes kinds h
  refine ⟨UInt64.ofNat ((t.map Duration.wholeMilliseconds).getD 0), rfl, ?_⟩
  have hmod : Format.uint64 (UInt64.ofNat ((t.map Duration.wholeMilliseconds).getD 0)) =
      Format.word 8 ((t.map Duration.wholeMilliseconds).getD 0) := by
    rw [Format.uint64, Format.word, Format.word, UInt64.toNat_ofNat']
    exact congrArg exactly (Bytes.ofNat_mod 8 _)
  rwa [hmod]

theorem remoteLength (length : Option UInt64) :
    Emits limit (liftM (Writer.int64 ((length.map UInt64.toInt64).getD (-1))))
      (Format.remoteLength (sentLength length)) [] :=
  (sequential.word 8 _).mono fun _ _ _ h => ⟨_, rfl, h⟩

/-- Within a limit that a length can say, every encoder writes what the grammar has for it. -/
theorem compositional (hlimit : limit < 2 ^ 32) :
    Encode.Compositional allowed (Value.Permitted allowed) (Emits limit) where
  toSequential := sequential
  counted := counted hlimit
  tag := tag
  foreignTag name _ hname := (sequential.nameTag name).congr (given_of hname).symm
  lob l _ := lob l
  remoteLength := remoteLength
  timeout := timeout

end Emits

end QueryClient

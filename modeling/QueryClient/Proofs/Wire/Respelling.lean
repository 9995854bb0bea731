import QueryClient.Proofs.Wire.Encoding

/-!
# The shortest spelling

A format may have several spellings of one thing. An encoder that writes tags by code writes one of
them, and none is shorter: whatever spelling has been read, the encoder has room where it stood.
-/

namespace QueryClient

open Format Operation

variable {e e' : Encode Unit} {f g : Format} {fs : List Format} {p : Prop}
  {announced : Nat} {bytes bytes' : Bytes} {contents contents' : List Bytes}

/-- An encode that writes these bytes behind so many objects, wherever they fit, and keeps some
contents aside, if tags are written by code. -/
def Spells (e : Encode Unit) (announced : Nat) (bytes : Bytes) (contents : List Bytes) : Prop :=
  ∀ limit written streams, streams.size = announced → written.size + bytes.length ≤ limit →
    e ⟨⟨written, some limit⟩, streams, true⟩ =
      (.ok (), ⟨⟨written ++ bytes.toArray, some limit⟩, streams ++ contents.toArray, true⟩)

/-- An encode that spells what a format allows in no more bytes than any spelling of it takes. -/
def Respells (e : Encode Unit) (f : Format) (contents : List Bytes) : Prop :=
  ∀ announced bytes kinds, f announced bytes kinds → kinds.length = contents.length ∧
    ∃ shortest : Bytes, shortest.length ≤ bytes.length ∧ Spells e announced shortest contents

namespace Spells

theorem seq (he : Spells e announced bytes contents)
    (he' : Spells e' (announced + contents.length) bytes' contents') :
    Spells (e >>= fun _ => e') announced (bytes ++ bytes') (contents ++ contents') := by
  intro limit written streams hstreams hfits
  rw [List.length_append] at hfits
  rw [bind_of_ok (he limit written streams hstreams (by omega)),
    he' limit _ _ (by simp [hstreams]) (by simp; omega)]
  simp

theorem put (content : Bytes) : Spells (liftM (Writer.put content)) announced content [] := by
  intro limit written streams _ hfits
  have hroom : Writer.isFullFor (some limit) written.size content.length = false := by
    simpa [Writer.isFullFor] using hfits
  rw [Encode.liftM_apply, Writer.put, if_neg (by simp [hroom]), Bytes.append_toArray,
    Array.append_empty]

theorem append (content : Bytes) : Spells (Encoder.append content) announced [] [content] := by
  intro limit written streams _ _
  simp [Encoder.append]

theorem uint8 (n : UInt8) : Spells (liftM (Writer.uint8 n)) announced [n] [] := by
  have hword : Spells (liftM (Writer.uint8 n)) announced (Bytes.ofNat 1 n.toNat) [] := put _
  rwa [Bytes.ofNat_one, UInt8.ofNat_toNat] at hword

theorem tag (kind : Kind) : Spells (Encoder.tag kind) announced [kind.code] [] :=
  fun limit written streams => uint8 kind.code limit written streams

theorem lob (kind : LobKind) (content : Bytes) (hcount : announced < 2 ^ 16) :
    Spells (Encoder.lob ⟨kind, some content⟩) announced
      ([Kind.streamReference.code] ++ ([kind.code] ++ Bytes.ofNat 2 announced)) [content] := by
  intro limit written streams hstreams hfits
  rw [Encode.lob_apply, if_pos (by omega), hstreams]
  have hannounced : Spells (Encoder.tag .streamReference >>= fun _ =>
      liftM (Writer.uint8 kind.code) >>= fun _ => liftM (Writer.word 2 announced)) announced
        ([Kind.streamReference.code] ++ ([kind.code] ++ Bytes.ofNat 2 announced)) [] :=
    (tag _).seq ((uint8 _).seq (put _))
  have hkept := hannounced.seq (append content)
  rw [List.append_nil] at hkept
  exact hkept limit written streams hstreams hfits

end Spells

namespace Respells

theorem given (he : p → Respells e f contents) : Respells e (f.given p) contents := by
  rintro announced bytes kinds ⟨hp, hf⟩
  exact he hp announced bytes kinds hf

theorem seq (he : Respells e f contents) (he' : Respells e' g contents') :
    Respells (e >>= fun _ => e') (Format.seq f g) (contents ++ contents') := by
  rintro announced _ _ ⟨first, kinds₁, second, kinds₂, hf, hg, rfl, rfl⟩
  obtain ⟨hkinds₁, shortest₁, hle₁, hfirst⟩ := he announced first kinds₁ hf
  obtain ⟨hkinds₂, shortest₂, hle₂, hsecond⟩ := he' _ second kinds₂ hg
  rw [hkinds₁] at hsecond
  refine ⟨?_, shortest₁ ++ shortest₂, ?_, hfirst.seq hsecond⟩
  · rw [List.length_append, List.length_append, hkinds₁, hkinds₂]
  · rw [List.length_append, List.length_append]
    exact Nat.add_le_add hle₁ hle₂

theorem pure : Respells (Pure.pure ()) (fields []) [] := by
  rintro announced _ _ ⟨rfl, rfl⟩
  refine ⟨rfl, [], Nat.le_refl _, fun limit written streams _ _ => ?_⟩
  rw [Array.append_empty, Array.append_empty]
  rfl

theorem put (content : Bytes) : Respells (liftM (Writer.put content)) (exactly content) [] := by
  rintro announced bytes kinds ⟨rfl, rfl⟩
  exact ⟨rfl, bytes, Nat.le_refl _, Spells.put bytes⟩

/-- A number takes as many bytes as any other of its width. -/
theorem wide {width n : Nat} (hf : ∀ announced bytes kinds, f announced bytes kinds →
      ∃ n, Format.word width n announced bytes kinds) :
    Respells (liftM (Writer.word width n)) f [] := by
  intro announced bytes kinds h
  obtain ⟨n', rfl, rfl⟩ := hf announced bytes kinds h
  refine ⟨rfl, Bytes.ofNat width n, ?_, Spells.put _⟩
  rw [Bytes.length_ofNat, Bytes.length_ofNat]

theorem sequential : Encode.Sequential Respells where
  seq := seq
  pure := pure
  put := put
  guarded _ he := given fun hp => by
    rw [if_pos hp]
    exact he hp

variable {allowed : AllowList}

/-- A code takes one byte, and a name more. -/
theorem tag (kind : Kind) :
    Respells (Encoder.tag kind) (Format.tag allowed (.known kind)) [] := by
  intro announced bytes kinds h
  have hsolid := List.length_pos_iff.mpr (solid_tag allowed _ announced bytes kinds h)
  refine ⟨?_, [kind.code], hsolid, Spells.tag kind⟩
  rcases h with ⟨-, rfl⟩ | hname
  · rfl
  · exact (sequential.nameTag kind.name announced bytes kinds hname).1

theorem lob {l : Lob} (hbound : l.content.isSome) : Respells (Encoder.lob l)
    (fields [Format.tag allowed (.known .streamReference), byte l.kind.code, stream l.kind])
    l.content.toList := by
  obtain ⟨kind, _ | content⟩ := l
  · cases hbound
  rintro announced _ _ ⟨tagBytes, tagKinds, _, _, htag, ⟨_, _, _, _, ⟨rfl, rfl⟩, hstream, rfl, rfl⟩,
    rfl, rfl⟩
  rw [fields_singleton] at hstream
  obtain ⟨hcount, rfl, rfl⟩ := hstream
  have hnil : tagKinds = [] := List.eq_nil_of_length_eq_zero (tag _ announced _ _ htag).1
  subst hnil
  have hsolid := List.length_pos_iff.mpr (solid_tag allowed _ announced _ _ htag)
  refine ⟨rfl, _, ?_, Spells.lob kind content hcount⟩
  simp only [List.length_append, List.length_singleton, Bytes.length_ofNat, List.length_nil]
  omega

/-- Every encoder has a shortest spelling for values that arrive as they are sent. -/
theorem compositional : Encode.Compositional allowed Value.Exact Respells where
  toSequential := sequential
  counted _ he := given fun _ => sequential.field (put _) he
  tag := tag
  foreignTag name _ _ := given fun _ => sequential.nameTag name
  lob _ hbound := lob hbound
  remoteLength _ := wide fun _ _ _ ⟨n, _, h⟩ => ⟨n.toUInt64.toNat, h⟩
  timeout _ := wide fun _ _ _ ⟨n, _, h⟩ => ⟨n.toNat, h⟩

end Respells

end QueryClient

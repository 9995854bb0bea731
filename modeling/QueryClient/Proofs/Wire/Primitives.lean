import QueryClient.Proofs.Wire.Reading

/-!
# Reads of typed data

Each read of the reader follows the format of its type.
-/

namespace QueryClient

open Format Operation

variable {α : Type} {allowed : AllowList} {f : α → Format}

theorem Reader.take_apply (n : Nat) (reader : Reader) :
    Reader.take n reader = if n ≤ reader.rest.length then
      (.ok (reader.rest.take n), ⟨reader.rest.drop n, reader.pos + n⟩)
    else (.error (.bufferUnderflow n reader.remaining), reader) := by
  have happly : Reader.take n reader = (if reader.rest.holds n then do
      set (Reader.mk (reader.rest.drop n) (reader.pos + n))
      return reader.rest.take n
    else throw (.bufferUnderflow n reader.remaining) : Read Bytes) reader := rfl
  rw [happly, Bytes.holds_eq_decide]
  by_cases hn : n ≤ reader.rest.length
  · rw [if_pos hn, if_pos (decide_eq_true hn)]
    rfl
  · rw [if_neg hn, if_neg (by simpa using hn)]
    rfl

namespace Reads

theorem take (n : Nat) : Reads allowed (liftM (Reader.take n)) fun content =>
    (exactly content).given (content.length = n) := by
  intro bytes pos slots depth content e
  rw [Decode.liftM_apply, Reader.take_apply]
  dsimp only
  constructor
  · intro h
    split_ifs at h with hn
    · cases h
      refine ⟨bytes.take n, bytes.drop n, [], (List.take_append_drop n bytes).symm,
        ⟨List.length_take_of_le hn, rfl, rfl⟩, ?_⟩
      simp [List.length_take_of_le hn]
    · cases h
  · rintro ⟨_, rest, _, rfl, ⟨rfl, rfl, rfl⟩, rfl⟩
    rw [if_pos (by simp), List.take_left, List.drop_left, Array.append_empty]

theorem word (width : Nat) : Reads allowed (liftM (Reader.word width)) fun n =>
    (Format.word width n).given (n < 256 ^ width) := by
  rw [Reader.word, Decode.liftM_bind]
  apply (take width).map Bytes.toNat
  · intro content hlength
    refine ⟨hlength ▸ Bytes.toNat_lt content, ?_⟩
    rw [Format.word, ← hlength, Bytes.ofNat_toNat]
  · intro n hn
    exact ⟨Bytes.ofNat width n, Bytes.length_ofNat width n, (Bytes.toNat_ofNat hn).symm⟩

/-- A number of fixed width, as whatever keeps all of that width. -/
theorem number {width : Nat} (ofNat : Nat → α) (toNat : α → Nat)
    (hto : ∀ n < 256 ^ width, toNat (ofNat n) = n) (hof : ∀ a, ofNat (toNat a) = a)
    (hlt : ∀ a, toNat a < 256 ^ width) :
    Reads allowed (liftM (Reader.word width) >>= fun n => Pure.pure (ofNat n)) fun a =>
      Format.word width (toNat a) := by
  refine congr (f := fun a => (Format.word width (toNat a)).given True) ?_ fun a => given_true _
  apply (word width).map ofNat
  · intro n hn
    exact ⟨trivial, by rw [hto n hn]⟩
  · intro a _
    exact ⟨toNat a, hlt a, (hof a).symm⟩

theorem uint8 : Reads allowed (liftM Reader.uint8) byte := by
  rw [Reader.uint8, Decode.liftM_bind]
  apply (number UInt8.ofNat UInt8.toNat (fun n hn => UInt8.toNat_ofNat_of_lt' hn)
    (fun n => UInt8.ofNat_toNat) UInt8.toNat_lt).congr
  intro n
  rw [Format.word, byte, Bytes.ofNat_one, UInt8.ofNat_toNat]

theorem uint16 : Reads allowed (liftM Reader.uint16) fun n => Format.word 2 n.toNat := by
  rw [Reader.uint16, Decode.liftM_bind]
  exact number UInt16.ofNat UInt16.toNat (fun n hn => UInt16.toNat_ofNat_of_lt' hn)
    (fun n => UInt16.ofNat_toNat) UInt16.toNat_lt

theorem uint32 : Reads allowed (liftM Reader.uint32) Format.uint32 := by
  rw [Reader.uint32, Decode.liftM_bind]
  exact number UInt32.ofNat UInt32.toNat (fun n hn => UInt32.toNat_ofNat_of_lt' hn)
    (fun n => UInt32.ofNat_toNat) UInt32.toNat_lt

theorem uint64 : Reads allowed (liftM Reader.uint64) Format.uint64 := by
  rw [Reader.uint64, Decode.liftM_bind]
  exact number UInt64.ofNat UInt64.toNat (fun n hn => UInt64.toNat_ofNat_of_lt' hn)
    (fun n => UInt64.ofNat_toNat) UInt64.toNat_lt

theorem int32 : Reads allowed (liftM Reader.int32) Format.int32 := by
  rw [Reader.int32, Decode.liftM_bind]
  exact uint32.equiv (fun _ => rfl) (fun _ => rfl)

theorem int64 : Reads allowed (liftM Reader.int64) Format.int64 := by
  rw [Reader.int64, Decode.liftM_bind]
  exact uint64.equiv (fun _ => rfl) (fun _ => rfl)

theorem double : Reads allowed (liftM Reader.double) Format.double := by
  rw [Reader.double, Decode.liftM_bind]
  exact uint64.equiv (fun _ => rfl) (fun _ => rfl)

theorem boolean : Reads allowed (liftM Reader.boolean) Format.boolean := by
  rw [Reader.boolean, Decode.liftM_bind]
  refine congr (f := fun b => (fields [byte (if b then 1 else 0)]).given True) ?_ ?_
  · apply uint8.field (fun b : Bool => if b then 1 else 0)
    intro n
    split
    · exact done (by intro b; cases b <;> simp)
    · exact done (by intro b; cases b <;> simp)
    · next h0 h1 =>
      apply throw
      rintro (_ | _) ⟨-, rfl⟩
      · exact h0 rfl
      · exact h1 rfl
  · intro b
    rw [given_true, fields_singleton, Format.boolean]

/-- The number that comes before some content is its length, if that fits. -/
theorem any_length {β : Type} {bound : Nat} (toNat : β → Nat) (g : Nat → Format)
    (hlt : ∀ n, toNat n < bound) (hsurj : ∀ n < bound, ∃ a, toNat a = n) (length : Nat) :
    any (fun n => (g (toNat n)).given (length = toNat n)) = (g length).given (length < bound) := by
  funext announced bytes kinds
  apply propext
  constructor
  · rintro ⟨n, rfl, hf⟩
    exact ⟨hlt n, hf⟩
  · rintro ⟨hn, hf⟩
    obtain ⟨n, rfl⟩ := hsurj length hn
    exact ⟨n, rfl, hf⟩

theorem any_length_uint32 (length : Nat) :
    any (fun n : UInt32 => (Format.uint32 n).given (length = n.toNat)) =
      (Format.word 4 length).given (length < 2 ^ 32) :=
  any_length UInt32.toNat (Format.word 4) UInt32.toNat_lt
    (fun n hn => ⟨UInt32.ofNat n, UInt32.toNat_ofNat_of_lt' hn⟩) length

theorem any_length_uint16 (length : Nat) :
    any (fun n : UInt16 => (Format.word 2 n.toNat).given (length = n.toNat)) =
      (Format.word 2 length).given (length < 2 ^ 16) :=
  any_length UInt16.toNat (Format.word 2) UInt16.toNat_lt
    (fun n hn => ⟨UInt16.ofNat n, UInt16.toNat_ofNat_of_lt' hn⟩) length

theorem bytes : Reads allowed (liftM Reader.bytes) lengthBytes := by
  rw [Reader.bytes, Decode.liftM_bind]
  refine congr (f := fun content => (fields [any fun n : UInt32 =>
    (Format.uint32 n).given (content.length = n.toNat), exactly content]).given True) ?_ ?_
  · apply uint32.part (fun n (content : Bytes) => content.length = n.toNat)
    intro n
    apply (take n.toNat).congr
    intro content
    rw [true_and, fields_singleton]
  · intro content
    rw [given_true, any_length_uint32, fields_cons, given_seq]
    rfl

/-- The text that some bytes spell; nothing is taken. -/
theorem textOf (content : Bytes) : Reads allowed (liftM (Reader.textOf content)) fun s =>
    (fields []).given (content = Utf8.encode s) := by
  unfold Reader.textOf
  split
  · next s hs =>
    rw [Utf8.decode_eq_ok_iff] at hs
    apply done
    intro s'
    rw [← Utf8.decode_eq_ok_iff, Utf8.decode_eq_ok_iff.mpr hs, Except.ok.injEq, eq_comm]
  · next defect hdefect =>
    apply throw
    intro s hs
    rw [← Utf8.decode_eq_ok_iff, hdefect] at hs
    cases hs

theorem string : Reads allowed (liftM Reader.string) text := by
  rw [Reader.string, Decode.liftM_bind]
  refine congr (f := fun s => (fields [lengthBytes (Utf8.encode s)]).given True) ?_ ?_
  · apply bytes.field Utf8.encode
    intro content
    apply (textOf content).congr
    intro s
    rw [true_and]
  · intro s
    rw [given_true, fields_singleton, text]

theorem shortString : Reads allowed (liftM Reader.shortString) shortText := by
  rw [Reader.shortString]
  simp only [Decode.liftM_bind]
  refine congr (f := fun s => (fields [any fun n : UInt16 =>
    (Format.word 2 n.toNat).given (Utf8.size s = n.toNat),
      exactly (Utf8.encode s)]).given True) ?_ ?_
  · apply uint16.part (fun n s => Utf8.size s = n.toNat)
    intro n
    refine congr (f := fun s => (fields [(exactly (Utf8.encode s)).given
      ((Utf8.encode s).length = n.toNat)]).given True) ?_ ?_
    · apply (take n.toNat).field Utf8.encode
      intro content
      apply (textOf content).congr
      intro s
      rw [true_and]
    · intro s
      rw [fields_singleton, fields_singleton, given_true, true_and, Utf8.size]
  · intro s
    rw [given_true, any_length_uint16, fields_cons, given_seq]
    rfl

/-- What may be absent. -/
theorem optional {read : Read α} (hr : Reads allowed (liftM read) f) :
    Reads allowed (liftM (Reader.optional read)) (Format.optional f) := by
  rw [Reader.optional, Decode.liftM_bind]
  refine congr (f := fun o : Option α => (fields (Format.boolean o.isSome ::
    o.elim [] fun a => [f a])).given True) ?_ ?_
  · apply boolean.field Option.isSome
    intro present
    cases present with
    | true =>
      simp only [if_true, Decode.liftM_bind, Decode.liftM_pure]
      apply (hr.congr fun a => (given_true _).symm).map some
      · intro a _
        exact ⟨⟨trivial, rfl⟩, fields_singleton _⟩
      · rintro (_ | a) ⟨-, h⟩
        · cases h
        · exact ⟨a, trivial, rfl⟩
    | false =>
      change Reads allowed (Pure.pure none) _
      refine congr (f := fun o => (fields []).given (True ∧ false = o.isSome)) (done ?_) ?_
      · rintro (_ | a) <;> simp
      · rintro (_ | a)
        · rfl
        · funext announced bytes kinds
          simp [given]
  · rintro (_ | a)
    · rw [given_true, Option.elim_none, fields_singleton]
      rfl
    · rw [given_true, Option.elim_some]
      rfl

/-- Things read one after another, as many as were asked for. -/
theorem times {read : Decode α} (hr : Reads allowed read f) (n : Nat) (before : List α) :
    Reads allowed (Decoder.times read n before) fun all => any fun items =>
      (fields (items.map f)).given (items.length = n ∧ all = before.reverse ++ items) := by
  induction n generalizing before with
  | zero =>
    rw [Decoder.times]
    refine congr (f := fun all => (fields []).given (all = before.reverse)) ?_ ?_
    · exact done fun all => Iff.rfl
    · intro all
      funext announced bytes kinds
      apply propext
      constructor
      · rintro ⟨rfl, h⟩
        exact ⟨[], ⟨rfl, (List.append_nil _).symm⟩, h⟩
      · rintro ⟨items, ⟨hlength, rfl⟩, h⟩
        cases List.eq_nil_of_length_eq_zero hlength
        exact ⟨List.append_nil _, h⟩
  | succ n ih =>
    rw [Decoder.times]
    apply (hr.bind fun a => ih (a :: before)).congr
    intro all
    funext announced bytes kinds
    apply propext
    constructor
    · rintro ⟨a, first, kinds₁, second, kinds₂, hf, ⟨items, ⟨rfl, rfl⟩, hitems⟩, h⟩
      exact ⟨a :: items, ⟨rfl, by simp⟩, first, kinds₁, second, kinds₂, hf, hitems, h⟩
    · rintro ⟨_ | ⟨a, items⟩, ⟨hlength, rfl⟩, hitems⟩
      · cases hlength
      · obtain ⟨first, kinds₁, second, kinds₂, hf, hitems, h⟩ := hitems
        exact ⟨a, first, kinds₁, second, kinds₂, hf,
          ⟨items, ⟨Nat.succ.inj hlength, by simp⟩, hitems⟩, h⟩

theorem times_nil {read : Decode α} (hr : Reads allowed read f) (n : Nat) :
    Reads allowed (Decoder.times read n []) fun items =>
      (fields (items.map f)).given (items.length = n) := by
  apply (hr.times n []).congr
  intro all
  funext announced bytes kinds
  apply propext
  constructor
  · rintro ⟨items, ⟨rfl, rfl⟩, h⟩
    exact ⟨rfl, h⟩
  · rintro ⟨rfl, h⟩
    exact ⟨all, ⟨rfl, rfl⟩, h⟩

/-- Things behind their number. -/
theorem behindCount {g : Nat → Decode (List α)}
    (hr : ∀ n, Reads allowed (g n) fun items =>
      (fields (items.map f)).given (items.length = n)) :
    Reads allowed (liftM Reader.uint32 >>= fun n => g n.toNat) fun items =>
      Format.counted (items.map f) := by
  refine congr (f := fun items : List α => (fields [any fun n : UInt32 =>
    (Format.uint32 n).given (items.length = n.toNat), fields (items.map f)]).given True) ?_ ?_
  · apply uint32.part (fun n (items : List α) => items.length = n.toNat)
    intro n
    apply (hr n.toNat).congr
    intro items
    rw [fields_singleton, true_and]
  · intro items
    rw [given_true, any_length_uint32, fields_cons, fields_singleton, given_seq, Format.counted,
      List.length_map, fields_cons]

/-- A field that holds things behind their number. -/
theorem countedField {γ : Type} {p : γ → Prop} {g : Nat → Decode (List α)} (π : γ → List α)
    {h : List α → Decode γ} {rest : γ → List Format}
    (hr : ∀ n, Reads allowed (g n) fun items =>
      (fields (items.map f)).given (items.length = n))
    (hh : ∀ items, Reads allowed (h items) fun c => (fields (rest c)).given (p c ∧ items = π c)) :
    Reads allowed (liftM Reader.uint32 >>= fun n => g n.toNat >>= h) fun c =>
      (fields (Format.counted ((π c).map f) :: rest c)).given (p c) := by
  rw [← bind_assoc]
  exact (behindCount hr).field π hh

end Reads

end QueryClient

import QueryClient.Proofs.Wire.Encoding
import QueryClient.Wire.Frame

/-!
# Room for a message

An encode fails only if something does not fit. One whose parts have room within the limit, one
after another, succeeds, and the room that a call takes is a sum over its parts: it depends on how
long its texts are and on nothing else. Where there is no room for what its parts write at least, it
fails. Whether there is room for a call does not depend on its key.
-/

namespace QueryClient

open Operation

namespace Encode

/-- Whether an encode succeeds wherever there is room for so many bytes, and takes up no more. -/
def FitsIn (room : Nat) (e : Encode Unit) : Prop :=
  ∀ written limit streams byCode, written.size + room ≤ limit →
    ∃ longer later, longer.size ≤ written.size + room ∧
      e ⟨⟨written, some limit⟩, streams, byCode⟩ = (.ok (), ⟨⟨longer, some limit⟩, later, byCode⟩)

namespace FitsIn

variable {m n : Nat} {e e' : Encode Unit}

theorem mono (h : FitsIn m e) (hle : m ≤ n) : FitsIn n e := by
  intro written limit streams byCode hroom
  obtain ⟨longer, later, hsize, hrun⟩ := h written limit streams byCode (by omega)
  exact ⟨longer, later, by omega, hrun⟩

theorem pure : FitsIn 0 (Pure.pure ()) :=
  fun written _ streams _ _ => ⟨written, streams, Nat.le_refl _, rfl⟩

theorem bind (h : FitsIn m e) (h' : FitsIn n e') : FitsIn (m + n) (e >>= fun _ => e') := by
  intro written limit streams byCode hroom
  obtain ⟨between, kept, hsize, hfirst⟩ := h written limit streams byCode (by omega)
  obtain ⟨longer, later, hsize', hsecond⟩ := h' between limit kept byCode (by omega)
  exact ⟨longer, later, by omega, (bind_of_ok hfirst).trans hsecond⟩

theorem put (content : Bytes) : FitsIn content.length (liftM (Writer.put content)) := by
  intro written limit streams byCode hroom
  have hfits : Writer.isFullFor (some limit) written.size content.length = false := by
    simpa [Writer.isFullFor] using hroom
  have hsize := Bytes.size_append written content
  refine ⟨written ++ content, streams, hsize.le, ?_⟩
  rw [liftM_apply, Writer.put]
  simp [hfits]

theorem word (width n : Nat) : FitsIn width (liftM (Writer.word width n)) := by
  have hput := put (Bytes.ofNat width n)
  rwa [Bytes.length_ofNat] at hput

theorem uint8 (n : UInt8) : FitsIn 1 (liftM (Writer.uint8 n)) :=
  word 1 _

theorem uint64 (n : UInt64) : FitsIn 8 (liftM (Writer.uint64 n)) :=
  word 8 _

theorem string {text : String} (h : (Utf8.encode text).length < 0x100000000) :
    FitsIn (4 + (Utf8.encode text).length) (liftM (Writer.string text)) := by
  rw [Writer.string, Writer.lengthBytes, if_pos h, liftM_bind]
  exact (word 4 _).bind (put _)

theorem shortString {text : String} (h : (Utf8.encode text).length < 0x10000) :
    FitsIn (2 + (Utf8.encode text).length) (liftM (Writer.shortString text)) := by
  rw [Writer.shortString, if_pos h, liftM_bind]
  exact (word 2 _).bind (put _)

/-- A tag is written by name or by code, which is shorter. -/
theorem tag (kind : Kind) : FitsIn 20 (Encoder.tag kind) := by
  have hname : (Utf8.encode kind.name).length ≤ 17 := by
    cases kind <;> decide
  intro written limit streams byCode hroom
  cases byCode with
  | true => exact ((uint8 kind.code).mono (by omega)) written limit streams true hroom
  | false =>
    have hnamed : FitsIn 20 (Encoder.nameTag kind.name) :=
      ((uint8 _).bind (shortString (by omega))).mono (by omega)
    exact hnamed written limit streams false hroom

theorem long (n : Int64) : FitsIn 28 (Encoder.value (.long n)) :=
  (tag .long).bind (uint64 _)

theorem text {content : String} (h : (Utf8.encode content).length < 0x100000000) :
    FitsIn (24 + (Utf8.encode content).length) (Encoder.value (.string content)) :=
  ((tag .string).bind (string h)).mono (by omega)

theorem cons {v : Value} {rest : List Value} (h : FitsIn m (Encoder.value v))
    (hrest : FitsIn n (Encoder.each rest)) : FitsIn (m + n) (Encoder.each (v :: rest)) :=
  h.bind hrest

theorem invocation (key : UInt64) (service : Service) {method : String} {args : List Value}
    (hmethod : (Utf8.encode method).length < 0x10000) (hargs : FitsIn n (Encoder.each args)) :
    FitsIn (35 + (Utf8.encode method).length + n)
      (Encoder.message (.invocation ⟨key, service, method, args⟩)) :=
  ((tag .invocation).bind ((uint64 key).bind ((uint8 service.code).bind
    ((shortString hmethod).bind ((word 4 _).bind hargs))))).mono (by omega)

end FitsIn

/-- Whether an encode succeeds only where there is room for so many bytes. -/
def Needs (room : Nat) (e : Encode Unit) : Prop :=
  ∀ written limit streams byCode later, written.size ≤ limit →
    e ⟨⟨written, some limit⟩, streams, byCode⟩ = (.ok (), later) →
      ∃ longer kept, later = ⟨⟨longer, some limit⟩, kept, byCode⟩ ∧
        written.size + room ≤ longer.size ∧ longer.size ≤ limit

namespace Needs

variable {m n : Nat} {e e' : Encode Unit}

theorem mono (h : Needs n e) (hle : m ≤ n) : Needs m e := by
  intro written limit streams byCode later hwritten hrun
  obtain ⟨longer, kept, hlater, hroom, hlimit⟩ := h written limit streams byCode later hwritten hrun
  exact ⟨longer, kept, hlater, by omega, hlimit⟩

theorem pure : Needs 0 (Pure.pure ()) := by
  intro written limit streams byCode later hwritten hrun
  cases hrun
  exact ⟨written, streams, rfl, Nat.le_refl _, hwritten⟩

theorem bind (h : Needs m e) (h' : Needs n e') : Needs (m + n) (e >>= fun _ => e') := by
  intro written limit streams byCode later hwritten hrun
  obtain ⟨_, between, hfirst, hsecond⟩ := bind_eq_ok_iff.mp hrun
  obtain ⟨longer, kept, rfl, hroom, hlimit⟩ := h written limit streams byCode _ hwritten hfirst
  obtain ⟨longest, last, rfl, hroom', hlimit'⟩ := h' longer limit kept byCode later hlimit hsecond
  exact ⟨longest, last, rfl, by omega, hlimit'⟩

theorem put (content : Bytes) : Needs content.length (liftM (Writer.put content)) := by
  intro written limit streams byCode later hwritten hrun
  rw [liftM_apply, Writer.put] at hrun
  split at hrun
  · cases hrun
  · next hfits =>
    cases hrun
    have hsize := Bytes.size_append written content
    refine ⟨written ++ content, streams, rfl, hsize.ge, ?_⟩
    simpa [Writer.isFullFor, hsize] using hfits

theorem word (width n : Nat) : Needs width (liftM (Writer.word width n)) := by
  have hput := put (Bytes.ofNat width n)
  rwa [Bytes.length_ofNat] at hput

theorem guarded {p : Prop} [Decidable p] {fault : Fault} (h : Needs n e) :
    Needs n (if p then e else MonadExcept.throw fault) := by
  split
  · exact h
  · intro written limit streams byCode later _ hrun
    cases hrun

theorem string (text : String) :
    Needs (4 + (Utf8.encode text).length) (liftM (Writer.string text)) := by
  rw [Writer.string, Writer.lengthBytes, liftM_ite, liftM_bind]
  exact guarded ((word 4 _).bind (put _))

theorem shortString (text : String) :
    Needs (2 + (Utf8.encode text).length) (liftM (Writer.shortString text)) := by
  rw [Writer.shortString, liftM_ite, liftM_bind]
  exact guarded ((word 2 _).bind (put _))

theorem tag (kind : Kind) : Needs 1 (Encoder.tag kind) := by
  intro written limit streams byCode later hwritten hrun
  cases byCode with
  | true =>
    exact word 1 kind.code.toNat written limit streams true later hwritten hrun
  | false =>
    have hnamed : Needs 1 (Encoder.nameTag kind.name) :=
      ((word 1 _).bind (shortString _)).mono (Nat.le_add_right _ _)
    exact hnamed written limit streams false later hwritten hrun

theorem long (n : Int64) : Needs 9 (Encoder.value (.long n)) :=
  (tag .long).bind (word 8 _)

theorem text (content : String) :
    Needs (5 + (Utf8.encode content).length) (Encoder.value (.string content)) :=
  ((tag .string).bind (string content)).mono (by omega)

theorem cons {v : Value} {rest : List Value} (h : Needs m (Encoder.value v))
    (hrest : Needs n (Encoder.each rest)) : Needs (m + n) (Encoder.each (v :: rest)) :=
  h.bind hrest

theorem invocation (key : UInt64) (service : Service) (method : String) {args : List Value}
    (hargs : Needs n (Encoder.each args)) :
    Needs (16 + (Utf8.encode method).length + n)
      (Encoder.message (.invocation ⟨key, service, method, args⟩)) :=
  ((tag .invocation).bind ((word 8 _).bind ((word 1 _).bind
    ((shortString method).bind ((word 4 _).bind hargs))))).mono (by omega)

end Needs

/-- Whether an encode succeeds wherever another one does, and then takes up as much room. -/
def SameRoom (e e' : Encode Unit) : Prop :=
  ∀ written written' limit streams byCode later, written.size = written'.size →
    e ⟨⟨written, some limit⟩, streams, byCode⟩ = (.ok (), later) →
      ∃ longer longer' kept, later = ⟨⟨longer, some limit⟩, kept, byCode⟩ ∧
        longer.size = longer'.size ∧ e' ⟨⟨written', some limit⟩, streams, byCode⟩ =
          (.ok (), ⟨⟨longer', some limit⟩, kept, byCode⟩)

namespace SameRoom

variable {e e' f f' : Encode Unit}

theorem pure : SameRoom (Pure.pure ()) (Pure.pure ()) := by
  intro written written' limit streams byCode later hsize hrun
  cases hrun
  exact ⟨written, written', streams, rfl, hsize, rfl⟩

theorem bind (h : SameRoom e e') (h' : SameRoom f f') :
    SameRoom (e >>= fun _ => f) (e' >>= fun _ => f') := by
  intro written written' limit streams byCode later hsize hrun
  obtain ⟨_, between, hfirst, hsecond⟩ := bind_eq_ok_iff.mp hrun
  obtain ⟨longer, longer', kept, rfl, hsize', hfirst'⟩ := h written written' _ _ _ _ hsize hfirst
  obtain ⟨longest, longest', last, rfl, hsize'', hsecond'⟩ :=
    h' longer longer' _ _ _ _ hsize' hsecond
  exact ⟨longest, longest', last, rfl, hsize'', (bind_of_ok hfirst').trans hsecond'⟩

theorem put {content content' : Bytes} (h : content.length = content'.length) :
    SameRoom (liftM (Writer.put content)) (liftM (Writer.put content')) := by
  intro written written' limit streams byCode later hsize hrun
  rw [liftM_apply, Writer.put] at hrun ⊢
  rw [← hsize, ← h]
  split at hrun
  · cases hrun
  · next hfits =>
    cases hrun
    refine ⟨written ++ content, written' ++ content', streams, rfl, ?_, by rw [if_neg hfits]⟩
    rw [Bytes.size_append, Bytes.size_append, hsize, h]

theorem word (width n n' : Nat) :
    SameRoom (liftM (Writer.word width n)) (liftM (Writer.word width n')) :=
  put (by rw [Bytes.length_ofNat, Bytes.length_ofNat])

theorem guarded {p : Prop} [Decidable p] {fault : Fault} (h : SameRoom e e') :
    SameRoom (if p then e else MonadExcept.throw fault)
      (if p then e' else MonadExcept.throw fault) := by
  split
  · exact h
  · intro written written' limit streams byCode later _ hrun
    cases hrun

theorem string (text : String) :
    SameRoom (liftM (Writer.string text)) (liftM (Writer.string text)) := by
  rw [Writer.string, Writer.lengthBytes, liftM_ite, liftM_bind]
  exact guarded ((word 4 _ _).bind (put rfl))

theorem shortString (text : String) :
    SameRoom (liftM (Writer.shortString text)) (liftM (Writer.shortString text)) := by
  rw [Writer.shortString, liftM_ite, liftM_bind]
  exact guarded ((word 2 _ _).bind (put rfl))

theorem tag (kind : Kind) : SameRoom (Encoder.tag kind) (Encoder.tag kind) := by
  intro written written' limit streams byCode
  cases byCode with
  | true => exact word 1 kind.code.toNat _ written written' limit streams true
  | false =>
    have hnamed : SameRoom (Encoder.nameTag kind.name) (Encoder.nameTag kind.name) :=
      (word 1 _ _).bind (shortString _)
    exact hnamed written written' limit streams false

theorem long (n : Int64) : SameRoom (Encoder.value (.long n)) (Encoder.value (.long n)) :=
  (tag .long).bind (word 8 _ _)

theorem text (content : String) :
    SameRoom (Encoder.value (.string content)) (Encoder.value (.string content)) :=
  (tag .string).bind (string content)

theorem cons {v : Value} {rest : List Value} (h : SameRoom (Encoder.value v) (Encoder.value v))
    (hrest : SameRoom (Encoder.each rest) (Encoder.each rest)) :
    SameRoom (Encoder.each (v :: rest)) (Encoder.each (v :: rest)) :=
  h.bind hrest

/-- The key of a call takes up the same room whatever it is. -/
theorem invocation (key key' : UInt64) (service : Service) (method : String) {args : List Value}
    (hargs : SameRoom (Encoder.each args) (Encoder.each args)) :
    SameRoom (Encoder.message (.invocation ⟨key, service, method, args⟩))
      (Encoder.message (.invocation ⟨key', service, method, args⟩)) :=
  (tag .invocation).bind ((word 8 _ _).bind ((word 1 _ _).bind
    ((shortString method).bind ((word 4 _ _).bind hargs))))

end SameRoom

end Encode

/-- A message with room for its version and its body can be encoded. -/
theorem Frame.exists_encode {options : Frame.Options} {m : Message} {n : Nat}
    (h : Encode.FitsIn n (Encoder.message m)) (hroom : n < options.maxSize) :
    ∃ frame, Frame.encode options m = .ok frame := by
  have hbody : Encode.FitsIn (1 + n) (liftM (Writer.uint8 Frame.version) >>= fun _ =>
      Encoder.message m) :=
    (Encode.FitsIn.uint8 _).bind h
  obtain ⟨written, streams, -, hrun⟩ :=
    hbody #[] options.maxSize #[] options.tagsByCode (by simp; omega)
  have hpayload : ∃ result, Frame.encodePayload options m = .ok result := by
    unfold Frame.encodePayload
    dsimp only
    rw [Encoder.start, Writer.empty, hrun]
    exact ⟨_, rfl⟩
  obtain ⟨⟨payload, contents⟩, hpayload⟩ := hpayload
  unfold Frame.encode
  rw [hpayload]
  exact ⟨_, rfl⟩

/-- A message that is encoded has had the room that it needs. -/
theorem Frame.room_of_encode {options : Frame.Options} {m : Message} {n : Nat} {frame : Bytes}
    (h : Encode.Needs n (Encoder.message m)) (hframe : Frame.encode options m = .ok frame) :
    1 + n ≤ options.maxSize := by
  have hbody : Encode.Needs (1 + n) (liftM (Writer.uint8 Frame.version) >>= fun _ =>
      Encoder.message m) :=
    (Encode.Needs.word 1 _).bind h
  unfold Frame.encode Frame.encodePayload at hframe
  dsimp only at hframe
  rw [Encoder.start, Writer.empty] at hframe
  generalize hrun : (liftM (Writer.uint8 Frame.version) >>= fun _ => Encoder.message m : Encode Unit)
    ⟨⟨#[], some options.maxSize⟩, #[], options.tagsByCode⟩ = result at hframe
  obtain ⟨outcome, later⟩ := result
  cases outcome with
  | error fault => cases hframe
  | ok =>
    obtain ⟨longer, kept, -, hroom, hlimit⟩ := hbody _ _ _ _ _ (by simp) hrun
    omega

/-- A message can be encoded if one can that takes up as much room. -/
theorem Frame.exists_encode_of_sameRoom {options : Frame.Options} {m m' : Message}
    (h : Encode.SameRoom (Encoder.message m) (Encoder.message m'))
    (hencoded : ∃ frame, Frame.encode options m = .ok frame) :
    ∃ frame, Frame.encode options m' = .ok frame := by
  have hbody : Encode.SameRoom (liftM (Writer.uint8 Frame.version) >>= fun _ => Encoder.message m)
      (liftM (Writer.uint8 Frame.version) >>= fun _ => Encoder.message m') :=
    (Encode.SameRoom.word 1 _ _).bind h
  obtain ⟨frame, hframe⟩ := hencoded
  unfold Frame.encode Frame.encodePayload at hframe ⊢
  dsimp only at hframe ⊢
  rw [Encoder.start, Writer.empty] at hframe ⊢
  generalize hrun : (liftM (Writer.uint8 Frame.version) >>= fun _ => Encoder.message m : Encode Unit)
    ⟨⟨#[], some options.maxSize⟩, #[], options.tagsByCode⟩ = result at hframe
  obtain ⟨outcome, later⟩ := result
  cases outcome with
  | error fault => cases hframe
  | ok =>
    obtain ⟨longer, longer', kept, -, -, hrun'⟩ := hbody _ #[] _ _ _ _ rfl hrun
    rw [hrun']
    exact ⟨_, rfl⟩

end QueryClient

import QueryClient.Proofs.Wire.Primitives

/-!
# Reading goes ahead

Whether or not a read succeeds, it leaves the reader ahead of where it was or where it was, in the
same bytes, and a decoder as deep as it was: what a failed read has opened is closed again
(`Steady`).
-/

namespace QueryClient

open Operation

variable {α β : Type}

namespace Operation

variable {S : Type} {R : S → S → Prop} {r : ExceptT Fault (StateM S) α}

/-- An operation that leads to states in some relation to the one that it starts from, failed or
not. -/
def Moves (R : S → S → Prop) (r : ExceptT Fault (StateM S) α) : Prop :=
  ∀ s, R s (r s).2

namespace Moves

theorem of_eq {outcome : Except Fault α} {s t : S} (hr : Moves R r) (h : r s = (outcome, t)) :
    R s t := by
  have hmove := hr s
  rwa [h] at hmove

theorem pure (hrefl : ∀ s, R s s) (a : α) :
    Moves R (Pure.pure a : ExceptT Fault (StateM S) α) :=
  hrefl

theorem throw (hrefl : ∀ s, R s s) (fault : Fault) :
    Moves R (MonadExcept.throw fault : ExceptT Fault (StateM S) α) :=
  hrefl

theorem bind {g : α → ExceptT Fault (StateM S) β} (hr : Moves R r) (hg : ∀ a, Moves R (g a))
    (htrans : ∀ {s t u}, R s t → R t u → R s u) : Moves R (r >>= g) := by
  intro s
  rcases h : r s with ⟨fault | a, t⟩
  · rw [bind_of_error h]
    exact hr.of_eq h
  · rw [bind_of_ok h]
    exact htrans (hr.of_eq h) (hg a t)

/-- Operations one after another, whatever becomes of each. -/
theorem foldl {C : Type} {perform : C → ExceptT Fault (StateM S) α} (hrefl : ∀ s, R s s)
    (htrans : ∀ {s t u}, R s t → R t u → R s u) (h : ∀ call, Moves R (perform call))
    (calls : List C) (s : S) : R s (calls.foldl (fun s call => (perform call s).2) s) := by
  induction calls generalizing s with
  | nil => exact hrefl s
  | cons call rest ih => exact htrans (h call s) (ih (perform call s).2)

end Moves

end Operation

namespace Reader

/-- A second reader is where the first one is or ahead of it, in the same bytes. -/
def Ahead (r s : Reader) : Prop :=
  ∃ taken : Bytes, r.rest = taken ++ s.rest ∧ s.pos = r.pos + taken.length

theorem Ahead.refl (r : Reader) : r.Ahead r :=
  ⟨[], rfl, rfl⟩

theorem Ahead.trans {r s t : Reader} (h : r.Ahead s) (h' : s.Ahead t) : r.Ahead t := by
  obtain ⟨first, hfirst, hpos⟩ := h
  obtain ⟨second, hsecond, hpos'⟩ := h'
  refine ⟨first ++ second, ?_, ?_⟩
  · rw [hfirst, hsecond, List.append_assoc]
  · rw [hpos', hpos, List.length_append, Nat.add_assoc]

theorem Ahead.pos_le {r s : Reader} (h : r.Ahead s) : r.pos ≤ s.pos := by
  obtain ⟨taken, -, hpos⟩ := h
  omega

/-- Where the bytes end does not move. -/
theorem Ahead.end_eq {r s : Reader} (h : r.Ahead s) :
    s.pos + s.rest.length = r.pos + r.rest.length := by
  obtain ⟨taken, hrest, hpos⟩ := h
  rw [hrest, hpos, List.length_append, Nat.add_assoc]

/-- A read that never goes back. -/
abbrev Steady (read : Read α) : Prop :=
  Moves Ahead read

namespace Steady

theorem pure (a : α) : Steady (Pure.pure a) :=
  Moves.pure Ahead.refl a

theorem throw (fault : Fault) : Steady (MonadExcept.throw fault : Read α) :=
  Moves.throw Ahead.refl fault

theorem bind {read : Read α} {next : α → Read β} (hr : Steady read)
    (hnext : ∀ a, Steady (next a)) : Steady (read >>= next) :=
  Moves.bind hr hnext Ahead.trans

theorem take (n : Nat) : Steady (take n) := by
  intro reader
  rw [take_apply]
  split_ifs with hn
  · exact ⟨reader.rest.take n, (List.take_append_drop n reader.rest).symm,
      by rw [List.length_take_of_le hn]⟩
  · exact Ahead.refl reader

theorem word (width : Nat) : Steady (word width) := (take width).bind fun _ => pure _

theorem uint8 : Steady uint8 := (word 1).bind fun _ => pure _

theorem uint16 : Steady uint16 := (word 2).bind fun _ => pure _

theorem uint32 : Steady uint32 := (word 4).bind fun _ => pure _

theorem uint64 : Steady uint64 := (word 8).bind fun _ => pure _

theorem int32 : Steady int32 := uint32.bind fun _ => pure _

theorem int64 : Steady int64 := uint64.bind fun _ => pure _

theorem double : Steady double := uint64.bind fun _ => pure _

theorem boolean : Steady boolean := by
  apply uint8.bind
  intro byte
  split
  · exact pure _
  · exact pure _
  · exact throw _

theorem bytes : Steady bytes := uint32.bind fun _ => take _

theorem textOf (content : Bytes) : Steady (textOf content) := by
  unfold Reader.textOf
  split
  · exact pure _
  · exact throw _

theorem string : Steady string := bytes.bind textOf

theorem shortString : Steady shortString := uint16.bind fun _ => (take _).bind textOf

theorem optional {read : Read α} (hr : Steady read) : Steady (optional read) := by
  apply boolean.bind
  intro present
  split
  · exact hr.bind fun _ => pure _
  · exact pure _

theorem times {read : Read α} (hr : Steady read) (n : Nat) (before : List α) :
    Steady (times read n before) := by
  induction n generalizing before with
  | zero => exact pure _
  | succ n ih => exact hr.bind fun a => ih (a :: before)

end Steady

end Reader

namespace Decoder

/-- A second decoder is where the first one is or ahead of it, in the same body, and as deep. -/
structure Ahead (d e : Decoder) : Prop where
  reader : d.reader.Ahead e.reader
  depth_eq : e.depth = d.depth
  allowed_eq : e.allowed = d.allowed

theorem Ahead.refl (d : Decoder) : d.Ahead d :=
  ⟨.refl _, rfl, rfl⟩

theorem Ahead.trans {d e f : Decoder} (h : d.Ahead e) (h' : e.Ahead f) : d.Ahead f :=
  ⟨h.reader.trans h'.reader, h'.depth_eq.trans h.depth_eq, h'.allowed_eq.trans h.allowed_eq⟩

/-- A read that never goes back and leaves the decoder as deep as it was. -/
abbrev Steady (read : Decode α) : Prop :=
  Moves Ahead read

namespace Steady

variable {r : Decode α}

theorem pure (a : α) : Steady (Pure.pure a) :=
  Moves.pure Ahead.refl a

theorem throw (fault : Fault) : Steady (MonadExcept.throw fault : Decode α) :=
  Moves.throw Ahead.refl fault

theorem bind {next : α → Decode β} (hr : Steady r) (hnext : ∀ a, Steady (next a)) :
    Steady (r >>= next) :=
  Moves.bind hr hnext Ahead.trans

theorem read {r : Read α} (hr : Reader.Steady r) : Steady (liftM r) := by
  rintro ⟨reader, slots, depth, allowed⟩
  exact ⟨hr reader, rfl, rfl⟩

theorem ofExcept (outcome : Except Fault α) : Steady (liftM outcome) := by
  cases outcome with
  | ok a => exact pure a
  | error fault => exact throw fault

/-- What a read does may depend on the decoder. -/
theorem asking {next : Decoder → Decode α} (hnext : ∀ d, Steady (next d)) :
    Steady (getThe Decoder >>= next) :=
  bind Ahead.refl hnext

/-- What is opened on the way down is closed on the way up. -/
theorem deeper (hr : Steady r) : Steady (deeper r) := by
  rintro ⟨reader, slots, depth, allowed⟩
  obtain ⟨hreader, hdepth, hallowed⟩ := hr ⟨reader, slots, depth + 1, allowed⟩
  exact ⟨hreader, congrArg (· - 1) hdepth, hallowed⟩

theorem nested (hr : Steady r) (levels : Nat) : Steady (nested levels r) := by
  cases levels with
  | zero => exact throw _
  | succ levels => exact hr.deeper

theorem times (hr : Steady r) (n : Nat) (before : List α) : Steady (times r n before) := by
  induction n generalizing before with
  | zero => exact pure _
  | succ n ih => exact hr.bind fun a => ih (a :: before)

theorem tag : Steady tag := by
  apply (read Reader.Steady.uint8).bind
  intro code
  split
  · apply (read Reader.Steady.shortString).bind
    intro name
    apply asking
    intro d
    apply (ofExcept _).bind
    rintro (_ | kind)
    · exact pure _
    · exact pure _
  · exact (ofExcept _).bind fun _ => pure _

theorem unexpected (kind : Kind) (met : Tag) : Steady (unexpected kind met : Decode α) :=
  throw _

theorem coded (ofCode : UInt8 → Except Fault α) : Steady (coded ofCode) :=
  (read Reader.Steady.uint8).bind fun _ => ofExcept _

theorem lob : Steady lob := by
  apply (coded _).bind
  intro kind
  apply (read Reader.Steady.uint16).bind
  intro index
  apply asking
  intro d
  dsimp only
  split
  · exact bind (fun _ => ⟨.refl _, rfl, rfl⟩) fun _ => pure _
  · exact throw _

theorem reference : Steady reference :=
  (read Reader.Steady.string).bind fun _ => (coded _).bind fun _ =>
    (read Reader.Steady.int64).bind fun _ => pure _

theorem handshakeBody : Steady handshakeBody :=
  (read Reader.Steady.uint8).bind fun _ => (read Reader.Steady.string).bind fun _ =>
    (coded _).bind fun _ => pure _

theorem exceptionBody : Steady exceptionBody :=
  (read Reader.Steady.string.optional).bind fun _ =>
    (read Reader.Steady.string.optional).bind fun _ =>
      (read Reader.Steady.string).bind fun _ => pure _

theorem chunkBody : Steady chunkBody :=
  (read Reader.Steady.bytes).bind fun _ => (read Reader.Steady.boolean).bind fun _ => pure _

theorem property : Reader.Steady property :=
  Reader.Steady.string.bind fun _ => Reader.Steady.string.bind fun _ => .pure _

theorem logonRequestBody : Steady logonRequestBody :=
  (read Reader.Steady.string.optional).bind fun _ =>
    (read Reader.Steady.string.optional).bind fun _ =>
      (read Reader.Steady.bytes.optional).bind fun _ =>
        (read Reader.Steady.uint32).bind fun _ =>
          (read (property.times _ _)).bind fun _ => pure _

theorem logonResultBody : Steady logonResultBody :=
  (read Reader.Steady.string).bind fun _ => (read Reader.Steady.string).bind fun _ =>
    (read Reader.Steady.bytes.optional).bind fun _ => pure _

theorem column : Reader.Steady column :=
  Reader.Steady.string.bind fun _ => Reader.Steady.shortString.bind fun _ => .pure _

theorem exception (levels : Nat) : Steady (exception levels) := by
  apply tag.bind
  intro met
  split
  · exact exceptionBody.nested levels
  · exact unexpected _ _

theorem optionalException (levels : Nat) : Steady (optionalException levels) := by
  apply tag.bind
  intro met
  split
  · exact pure _
  · split
    · exact (exceptionBody.nested levels).bind fun _ => pure _
    · exact unexpected _ _

section Bodies

variable {levels : Nat} {value : Decode Value}

theorem counted (hv : Steady value) : Steady (counted value) := by
  apply (read Reader.Steady.uint32).bind
  intro count
  apply asking
  intro d
  split
  · exact hv.times _ _
  · exact asking fun _ => throw _

theorem invocationBody (hv : Steady value) : Steady (invocationBody value) :=
  (read Reader.Steady.uint64).bind fun _ => (coded _).bind fun _ =>
    (read Reader.Steady.shortString).bind fun _ => hv.counted.bind fun _ => pure _

theorem replyBody (hv : Steady value) : Steady (replyBody levels value) := by
  apply (read Reader.Steady.uint64).bind
  intro key
  apply (read Reader.Steady.boolean).bind
  intro failed
  split
  · exact (exception levels).bind fun _ => pure _
  · exact hv.bind fun _ => pure _

theorem requestBody (hv : Steady value) : Steady (requestBody value) :=
  (read Reader.Steady.int64).bind fun _ => (read Reader.Steady.string).bind fun _ =>
    hv.counted.bind fun _ => (read Reader.Steady.uint32).bind fun _ => (coded _).bind fun _ =>
      (read Reader.Steady.uint32).bind fun _ => (read Reader.Steady.uint64).bind fun _ => pure _

theorem resultsBody (hv : Steady value) : Steady (resultsBody levels value) :=
  (read Reader.Steady.int64).bind fun _ => (read Reader.Steady.int64).bind fun _ =>
    (read Reader.Steady.int64).bind fun _ => (read Reader.Steady.uint32).bind fun _ =>
      (read (column.times _ _)).bind fun _ => (read Reader.Steady.uint32).bind fun _ =>
        (hv.counted.times _ _).bind fun _ => (read Reader.Steady.int64.optional).bind fun _ =>
          (read Reader.Steady.uint32).bind fun _ =>
            (read (Reader.Steady.string.times _ _)).bind fun _ =>
              (optionalException levels).bind fun _ => pure _

theorem messageBody (hv : Steady value) (kind : Kind) :
    Steady (messageBody levels value kind) := by
  cases kind
  case handshake => exact handshakeBody.bind fun _ => pure _
  case invocation => exact hv.invocationBody.bind fun _ => pure _
  case reply => exact hv.replyBody.bind fun _ => pure _
  case request => exact hv.requestBody.bind fun _ => pure _
  case results => exact hv.resultsBody.bind fun _ => pure _
  case chunk => exact chunkBody.bind fun _ => pure _
  case exception => exact exceptionBody.bind fun _ => pure _
  case logonRequest => exact logonRequestBody.bind fun _ => pure _
  case logonResult => exact logonResultBody.bind fun _ => pure _
  all_goals exact throw _

theorem valueBody (hv : Steady value) (kind : Kind) : Steady (valueBody levels value kind) := by
  cases kind
  case null => exact pure _
  case boolean => exact (read Reader.Steady.boolean).bind fun _ => pure _
  case integer => exact (read Reader.Steady.int32).bind fun _ => pure _
  case long => exact (read Reader.Steady.int64).bind fun _ => pure _
  case double => exact (read Reader.Steady.double).bind fun _ => pure _
  case string => exact (read Reader.Steady.string).bind fun _ => pure _
  case binary => exact (read Reader.Steady.bytes).bind fun _ => pure _
  case list => exact hv.counted.bind fun _ => pure _
  case streamReference => exact lob.bind fun _ => pure _
  case lobReference => exact reference.bind fun _ => pure _
  all_goals exact (hv.messageBody _).bind fun _ => pure _

end Bodies

theorem valueWithin (levels : Nat) : Steady (valueWithin levels) := by
  induction levels with
  | zero => exact tag.bind fun _ => throw _
  | succ levels ih =>
    apply tag.bind
    rintro (kind | name)
    · exact (ih.valueBody kind).deeper
    · exact (ih.counted.bind fun _ => pure _).deeper

theorem levels : Steady levels :=
  asking fun _ => pure _

theorem value : Steady value :=
  levels.bind valueWithin

theorem values : Steady values :=
  levels.bind fun levels => (valueWithin levels).counted

theorem message : Steady message := by
  apply value.bind
  intro v
  split
  · exact pure _
  · exact throw _

theorem objectBody (kind : Kind) : Steady (objectBody kind) := by
  apply levels.bind
  rintro (_ | levels)
  · exact throw _
  · exact ((valueWithin levels).messageBody kind).deeper

theorem object (kind : Kind) : Steady (object kind) := by
  apply tag.bind
  intro met
  split
  · exact objectBody kind
  · exact unexpected _ _

theorem optionalObject (kind : Kind) : Steady (optionalObject kind) := by
  apply tag.bind
  intro met
  split
  · exact pure _
  · split
    · exact (objectBody kind).bind fun _ => pure _
    · exact unexpected _ _

end Steady

end Decoder

end QueryClient

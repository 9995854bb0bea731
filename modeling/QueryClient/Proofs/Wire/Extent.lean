import QueryClient.Proofs.Wire.Encoding
import QueryClient.Proofs.Wire.Retagging
import QueryClient.Proofs.Wire.RoundTrip

/-!
# How long a frame is

How many bytes a message takes up can be computed without writing it (`Message.extent`). An encoder
makes many small writes, each with its own check, but whether it succeeds depends on their sum alone
(`Encode.Occupies`): it fails only for what can never be sent (`Message.Sendable`) or for want of
room for the whole.
-/

namespace QueryClient

open Operation

section Extent

variable (byCode : Bool)

/-- The bytes of a tag: a code, or a name behind the code that announces it and its length. -/
def Kind.extent (kind : Kind) : Nat :=
  if byCode then 1 else 3 + Utf8.size kind.name

/-- The bytes of a text behind its length. -/
def textExtent (text : String) : Nat :=
  4 + Utf8.size text

/-- The bytes of something behind the byte that says whether it is there. -/
def optionalExtent (size : α → Nat) : Option α → Nat
  | some a => 1 + size a
  | none => 1

def columnExtent (column : Column) : Nat :=
  textExtent column.name + (2 + Utf8.size column.typeName)

def propertyExtent (entry : String × String) : Nat :=
  textExtent entry.1 + textExtent entry.2

def exceptionExtent (e : ServerException) : Nat :=
  Kind.exception.extent byCode + (optionalExtent textExtent e.className +
    (optionalExtent textExtent e.code + textExtent e.message))

def optionalExceptionExtent : Option ServerException → Nat
  | some e => exceptionExtent byCode e
  | none => Kind.null.extent byCode

mutual

/-- The bytes of a value behind its tag. -/
def Value.extent : Value → Nat
  | .null => Kind.null.extent byCode
  | .boolean _ => Kind.boolean.extent byCode + 1
  | .integer _ => Kind.integer.extent byCode + 4
  | .long _ => Kind.long.extent byCode + 8
  | .double _ => Kind.double.extent byCode + 8
  | .string text => Kind.string.extent byCode + textExtent text
  | .binary bytes => Kind.binary.extent byCode + (4 + bytes.length)
  | .list items => Kind.list.extent byCode + (4 + eachExtent items)
  | .lob _ => Kind.streamReference.extent byCode + 3
  | .reference r => Kind.lobReference.extent byCode + (textExtent r.id + 9)
  | .message m => m.extent
  | .named typeName fields => 3 + Utf8.size typeName + (4 + eachExtent fields)

def eachExtent : List Value → Nat
  | [] => 0
  | v :: rest => v.extent + eachExtent rest

def rowsExtent : List Row → Nat
  | [] => 0
  | row :: rest => 4 + eachExtent row + rowsExtent rest

/-- The bytes of a message behind its tag. -/
def Message.extent : Message → Nat
  | .handshake handshake =>
    Kind.handshake.extent byCode + (1 + (textExtent handshake.productVersion + 1))
  | .invocation ⟨_, _, method, args⟩ =>
    Kind.invocation.extent byCode + (8 + (1 + (2 + Utf8.size method + (4 + eachExtent args))))
  | .reply ⟨_, .ok v⟩ => Kind.reply.extent byCode + (8 + (1 + v.extent))
  | .reply ⟨_, .error e⟩ => Kind.reply.extent byCode + (8 + (1 + exceptionExtent byCode e))
  | .request ⟨_, sql, parameters, _, _, _, _⟩ =>
    Kind.request.extent byCode + (8 + (textExtent sql + (4 + eachExtent parameters +
      (4 + (1 + (4 + 8))))))
  | .results ⟨_, _, _, columns, rows, updateCount, warnings, exception⟩ =>
    Kind.results.extent byCode + (8 + (8 + (8 + (4 + (columns.map columnExtent).sum +
      (4 + rowsExtent rows + (optionalExtent (fun _ => 8) updateCount +
        (4 + (warnings.map textExtent).sum + optionalExceptionExtent byCode exception)))))))
  | .chunk chunk => Kind.chunk.extent byCode + (4 + chunk.data.length + 1)
  | .exception e => exceptionExtent byCode e
  | .logonRequest request =>
    Kind.logonRequest.extent byCode + (optionalExtent textExtent request.user +
      (optionalExtent textExtent request.password +
        (optionalExtent (4 + ·.length) request.token +
          (4 + (request.properties.map propertyExtent).sum))))
  | .logonResult result =>
    Kind.logonResult.extent byCode + (textExtent result.sessionId +
      (textExtent result.userName + optionalExtent (4 + ·.length) result.continuation))

end

end Extent

theorem eachExtent_eq (byCode : Bool) (items : List Value) :
    eachExtent byCode items = (items.map (Value.extent byCode)).sum := by
  induction items with
  | nil => rfl
  | cons v rest ih => rw [eachExtent, ih, List.map_cons, List.sum_cons]

theorem rowsExtent_eq (byCode : Bool) (rows : List Row) :
    rowsExtent byCode rows = (rows.map fun row => 4 + eachExtent byCode row).sum := by
  induction rows with
  | nil => rfl
  | cons row rest ih => rw [rowsExtent, ih, List.map_cons, List.sum_cons]

/-- A part that can be written if there is room for it: the content of a large object is at hand,
and names that are written behind a short length are not too long for it. -/
def Value.Writable : Value → Prop
  | .lob l => l.content.isSome
  | .named typeName _ => Utf8.size typeName ≤ 65535
  | .message (.invocation i) => Utf8.size i.method ≤ 65535
  | .message (.results r) => ∀ c ∈ r.columns, Utf8.size c.typeName ≤ 65535
  | _ => True

/-- There are as many contents as large objects when each of them has its own. -/
theorem length_contents {parts : List Value} (h : ∀ part ∈ parts, part.Writable) :
    (parts.filterMap Value.content?).length = (parts.filterMap Value.lobKind?).length := by
  induction parts with
  | nil => rfl
  | cons part rest ih =>
    rw [List.forall_mem_cons] at h
    have hrest := ih h.2
    cases part with
    | lob l =>
      obtain ⟨kind, _ | content⟩ := l
      · cases h.1
      · exact congrArg (· + 1) hrest
    | _ => exact hrest

/-- A message that can be sent if there is room for it. -/
structure Message.Sendable (m : Message) : Prop where
  writable : ∀ part ∈ m.parts, part.Writable
  countable : m.lobKinds.length ≤ 65536

namespace Encode

variable {α : Type} {byCode : Bool} {m n : Nat} {p q : Prop} {contents contents' : List Bytes}
  {e e' : Encode Unit}

/-- An encode that takes up so many bytes and keeps so many contents aside, always the same ones
behind as many announced objects. Within its limit it succeeds exactly under a condition, if there
is room for all of the bytes and if there are numbers for all of the contents. -/
def Occupies (byCode : Bool) (room : Nat) (possible : Prop) (contents : List Bytes)
    (e : Encode Unit) : Prop :=
  ∃ spelling : Nat → Bytes, (∀ announced, (spelling announced).length = room) ∧
    ∀ written limit streams later, limit < 2 ^ 32 → written.size ≤ limit →
      streams.size ≤ 65536 →
      (e ⟨⟨written, some limit⟩, streams, byCode⟩ = (.ok (), later) ↔
        possible ∧ streams.size + contents.length ≤ 65536 ∧ written.size + room ≤ limit ∧
          later = ⟨⟨written ++ (spelling streams.size).toArray, some limit⟩,
            streams ++ contents.toArray, byCode⟩)

namespace Occupies

theorem congr (h : Occupies byCode m p contents e) (hroom : m = n) (hpossible : p ↔ q) :
    Occupies byCode n q contents e := by
  obtain rfl := hroom
  obtain rfl := propext hpossible
  exact h

theorem pure : Occupies byCode 0 True [] (Pure.pure ()) := by
  refine ⟨fun _ => [], fun _ => rfl, ?_⟩
  intro written limit streams later hlimit hwritten hstreams
  rw [pure_eq_ok_iff]
  simp [hwritten, hstreams]

/-- An encode that always fails, whatever it would take up, under a condition that never holds. -/
theorem never (hfails : ∀ s later, e s ≠ (.ok (), later)) (hp : ¬ p) :
    Occupies byCode n p contents e := by
  refine ⟨fun _ => List.replicate n 0, fun _ => List.length_replicate, ?_⟩
  intro written limit streams later hlimit hwritten hstreams
  constructor
  · intro hrun
    exact absurd hrun (hfails _ later)
  · rintro ⟨hholds, -⟩
    exact absurd hholds hp

theorem seq (h : Occupies byCode m p contents e) (h' : Occupies byCode n q contents' e') :
    Occupies byCode (m + n) (p ∧ q) (contents ++ contents') (e >>= fun _ => e') := by
  obtain ⟨first, hfirst, hrun⟩ := h
  obtain ⟨second, hsecond, hrun'⟩ := h'
  refine ⟨fun announced => first announced ++ second (announced + contents.length), ?_, ?_⟩
  · intro announced
    rw [List.length_append, hfirst, hsecond]
  · intro written limit streams later hlimit hwritten hstreams
    have hsize : (written ++ (first streams.size).toArray).size = written.size + m := by
      simp [hfirst]
    have hcount : (streams ++ contents.toArray).size = streams.size + contents.length := by
      simp
    have hboth : written ++ (first streams.size).toArray ++
        (second (streams.size + contents.length)).toArray =
          written ++ (first streams.size ++ second (streams.size + contents.length)).toArray := by
      simp
    have hkept : streams ++ contents.toArray ++ contents'.toArray =
        streams ++ (contents ++ contents').toArray := by
      simp
    rw [bind_eq_ok_iff, List.length_append]
    constructor
    · rintro ⟨⟨⟩, between, hone, htwo⟩
      obtain ⟨hp, hcontents, hroom, rfl⟩ := (hrun _ _ _ _ hlimit hwritten hstreams).mp hone
      rw [hrun' _ _ _ _ hlimit (by omega) (by omega), hsize, hcount, hboth, hkept] at htwo
      obtain ⟨hq, hcontents', hroom', rfl⟩ := htwo
      exact ⟨⟨hp, hq⟩, by omega, by omega, rfl⟩
    · rintro ⟨⟨hp, hq⟩, hcontents, hroom, rfl⟩
      refine ⟨(), _, (hrun _ _ _ _ hlimit hwritten hstreams).mpr ⟨hp, by omega, by omega, rfl⟩, ?_⟩
      rw [hrun' _ _ _ _ hlimit (by omega) (by omega), hsize, hcount, hboth, hkept]
      exact ⟨hq, by omega, by omega, rfl⟩

/-- What holds of a single part need not be said of all of them. -/
theorem single {parts : List Value} {v : Value} (h : Occupies byCode n True contents e)
    (hparts : parts = [v]) (hv : v.Writable) :
    Occupies byCode n (∀ part ∈ parts, part.Writable) contents e := by
  rw [hparts, List.forall_mem_singleton]
  exact h.congr rfl (iff_of_true trivial hv)

/-- What holds of the whole need not be said of it with its parts. -/
theorem inside {parts : List Value} {v : Value}
    (h : Occupies byCode n (∀ part ∈ parts, part.Writable) contents e) (hv : v.Writable) :
    Occupies byCode n (∀ part ∈ v :: parts, part.Writable) contents e := by
  rw [List.forall_mem_cons]
  exact h.congr rfl (and_iff_right hv).symm

/-- A field that can always be written, before others. -/
theorem field (h : Occupies byCode m True [] e) (h' : Occupies byCode n p contents e') :
    Occupies byCode (m + n) p contents (e >>= fun _ => e') :=
  (h.seq h').congr rfl (by rw [true_and])

/-- Fields that can always be written, behind another one. -/
theorem fieldThen (h : Occupies byCode m p contents e) (h' : Occupies byCode n True [] e') :
    Occupies byCode (m + n) p contents (e >>= fun _ => e') := by
  have hseq := (h.seq h').congr rfl (by rw [and_true])
  rwa [List.append_nil] at hseq

theorem put (content : Bytes) :
    Occupies byCode content.length True [] (liftM (Writer.put content)) := by
  refine ⟨fun _ => content, fun _ => rfl, ?_⟩
  intro written limit streams later hlimit hwritten hstreams
  rw [liftM_apply, Writer.put, Bytes.append_toArray]
  by_cases hfits : written.size + content.length ≤ limit
  · have hroom : Writer.isFullFor (some limit) written.size content.length = false := by
      simpa [Writer.isFullFor] using hfits
    rw [hroom]
    constructor
    · intro hrun
      cases hrun
      exact ⟨trivial, hstreams, hfits, by simp⟩
    · rintro ⟨-, -, -, rfl⟩
      simp
  · have hfull : Writer.isFullFor (some limit) written.size content.length = true := by
      simpa [Writer.isFullFor] using hfits
    rw [hfull]
    constructor
    · intro hrun
      cases hrun
    · rintro ⟨-, -, hroom, -⟩
      exact absurd hroom hfits

theorem word (width n : Nat) : Occupies byCode width True [] (liftM (Writer.word width n)) :=
  (put _).congr (Bytes.length_ofNat width n) Iff.rfl

theorem uint8 (n : UInt8) : Occupies byCode 1 True [] (liftM (Writer.uint8 n)) :=
  word 1 _

theorem uint32 (n : UInt32) : Occupies byCode 4 True [] (liftM (Writer.uint32 n)) :=
  word 4 _

theorem uint64 (n : UInt64) : Occupies byCode 8 True [] (liftM (Writer.uint64 n)) :=
  word 8 _

theorem int64 (n : Int64) : Occupies byCode 8 True [] (liftM (Writer.int64 n)) :=
  word 8 _

/-- A check that only what has no room within the limit can fail. -/
theorem unhindered [Decidable q] {fault : Fault} (h : Occupies byCode n p contents e)
    (hq : n < 2 ^ 32 → q) :
    Occupies byCode n p contents (if q then e else MonadExcept.throw fault) := by
  obtain ⟨spelling, hlength, hrun⟩ := h
  refine ⟨spelling, hlength, ?_⟩
  intro written limit streams later hlimit hwritten hstreams
  by_cases hcheck : q
  · rw [if_pos hcheck]
    exact hrun written limit streams later hlimit hwritten hstreams
  · rw [if_neg hcheck]
    constructor
    · intro hthrow
      cases hthrow
    · rintro ⟨-, -, hroom, -⟩
      exact absurd (hq (by omega)) hcheck

theorem guarded [Decidable q] {fault : Fault} (h : Occupies byCode n True contents e) :
    Occupies byCode n q contents (if q then e else MonadExcept.throw fault) := by
  by_cases hq : q
  · rw [if_pos hq]
    exact h.congr rfl (iff_of_true trivial hq)
  · rw [if_neg hq]
    exact never (fun s later => nofun) hq

theorem lengthBytes (content : Bytes) :
    Occupies byCode (4 + content.length) True [] (liftM (Writer.lengthBytes content)) := by
  rw [Writer.lengthBytes, liftM_ite, liftM_bind]
  exact ((word 4 _).field (put content)).unhindered (by omega)

theorem string (text : String) :
    Occupies byCode (textExtent text) True [] (liftM (Writer.string text)) :=
  lengthBytes _

theorem shortString (text : String) :
    Occupies byCode (2 + Utf8.size text) (Utf8.size text ≤ 65535) []
      (liftM (Writer.shortString text)) := by
  rw [Writer.shortString, liftM_ite, liftM_bind]
  exact ((word 2 _).field (put _)).guarded.congr rfl Nat.lt_succ_iff

theorem nameTag (name : String) :
    Occupies byCode (3 + Utf8.size name) (Utf8.size name ≤ 65535) [] (Encoder.nameTag name) :=
  ((uint8 _).field (shortString name)).congr (by omega) Iff.rfl

theorem tag (kind : Kind) : Occupies byCode (kind.extent byCode) True [] (Encoder.tag kind) := by
  cases byCode with
  | true =>
    have hcode : Occupies true 1 True [] (liftM (Writer.uint8 kind.code)) := uint8 _
    exact hcode
  | false =>
    have hname : Utf8.size kind.name ≤ 65535 :=
      Nat.le_of_lt_succ (Format.Laid.size_kind_name kind)
    have hnamed : Occupies false _ _ [] (Encoder.nameTag kind.name) := nameTag _
    exact hnamed.congr rfl (iff_true_intro hname)

theorem optional {write : α → Write Unit} {size : α → Nat}
    (hwrite : ∀ a, Occupies byCode (size a) True [] (liftM (write a))) (o : Option α) :
    Occupies byCode (optionalExtent size o) True [] (liftM (Writer.optional write o)) := by
  cases o with
  | none => exact uint8 _
  | some a =>
    rw [Writer.optional, liftM_bind]
    exact (uint8 _).field (hwrite a)

/-- Things one after another. -/
theorem all {write : α → Encode Unit} {size : α → Nat} {possible : α → Prop}
    {kept : α → List Bytes} {writeAll : List α → Encode Unit} (hnil : writeAll [] = Pure.pure ())
    (hcons : ∀ a rest, writeAll (a :: rest) = write a >>= fun _ => writeAll rest) {items : List α}
    (hwrite : ∀ a ∈ items, Occupies byCode (size a) (possible a) (kept a) (write a)) :
    Occupies byCode (items.map size).sum (∀ a ∈ items, possible a) (items.flatMap kept)
      (writeAll items) := by
  induction items with
  | nil =>
    rw [hnil]
    exact pure.congr rfl (by simp)
  | cons a rest ih =>
    rw [List.forall_mem_cons] at hwrite
    rw [hcons, List.flatMap_cons, List.map_cons, List.sum_cons]
    exact (hwrite.1.seq (ih hwrite.2)).congr rfl List.forall_mem_cons.symm

/-- Things one after another that can always be written. -/
theorem allPlain {write : α → Encode Unit} {size : α → Nat} {writeAll : List α → Encode Unit}
    (hnil : writeAll [] = Pure.pure ())
    (hcons : ∀ a rest, writeAll (a :: rest) = write a >>= fun _ => writeAll rest)
    (hwrite : ∀ a, Occupies byCode (size a) True [] (write a)) (items : List α) :
    Occupies byCode (items.map size).sum True [] (writeAll items) := by
  have hall := all hnil hcons fun a (_ : a ∈ items) => hwrite a
  rw [List.flatMap_eq_nil_iff.mpr fun _ _ => rfl] at hall
  exact hall.congr rfl (by simp)

theorem properties (entries : List (String × String)) :
    Occupies byCode (entries.map propertyExtent).sum True [] (Encoder.properties entries) := by
  have hcons : ∀ (entry : String × String) rest, Encoder.properties (entry :: rest) =
      (liftM (Writer.string entry.1) >>= fun _ => liftM (Writer.string entry.2)) >>= fun _ =>
        Encoder.properties rest := by
    rintro ⟨key, value⟩ rest
    rw [Encoder.properties, bind_assoc]
  exact allPlain rfl hcons (fun entry => (string entry.1).field (string entry.2)) entries

theorem columns (cols : List Column) :
    Occupies byCode (cols.map columnExtent).sum (∀ c ∈ cols, Utf8.size c.typeName ≤ 65535) []
      (Encoder.columns cols) := by
  have hcons : ∀ (c : Column) rest, Encoder.columns (c :: rest) =
      (liftM (Writer.string c.name) >>= fun _ => liftM (Writer.shortString c.typeName)) >>= fun _ =>
        Encoder.columns rest := by
    intro c rest
    rw [Encoder.columns, bind_assoc]
  have hall : Occupies byCode _ _ _ (Encoder.columns cols) := all rfl hcons fun c _ =>
    (string c.name).field (shortString c.typeName)
  rwa [List.flatMap_eq_nil_iff.mpr fun _ _ => rfl] at hall

theorem warnings (texts : List String) :
    Occupies byCode (texts.map textExtent).sum True [] (Encoder.warnings texts) :=
  allPlain rfl (fun _ _ => rfl) string texts

theorem reference (r : LobReference) :
    Occupies byCode (Value.extent byCode (.reference r)) True [] (Encoder.reference r) :=
  (tag _).field ((string _).field ((uint8 _).field (int64 _)))

theorem exception (e : ServerException) :
    Occupies byCode (exceptionExtent byCode e) True [] (Encoder.exception e) :=
  (tag _).field ((optional string _).field ((optional string _).field (string _)))

theorem optionalException (o : Option ServerException) :
    Occupies byCode (optionalExceptionExtent byCode o) True [] (Encoder.optionalException o) := by
  cases o with
  | some e => exact exception e
  | none => exact tag .null

/-- A large object takes a number, so there must be one left. -/
theorem lob (l : Lob) : Occupies byCode (Value.extent byCode (.lob l)) l.content.isSome
    l.content.toList (Encoder.lob l) := by
  obtain ⟨kind, _ | content⟩ := l
  · exact never (fun s later => nofun) Bool.false_ne_true
  have hannounces : ∀ announced, Occupies byCode (Value.extent byCode (.lob ⟨kind, some content⟩))
      True [] (Encoder.tag .streamReference >>= fun _ => liftM (Writer.uint8 kind.code) >>= fun _ =>
        liftM (Writer.word 2 announced)) :=
    fun announced => (tag _).field ((uint8 _).field (word 2 announced))
  choose spelling hlength hrun using hannounces
  refine ⟨fun announced => spelling announced announced, fun _ => hlength _ _, ?_⟩
  intro written limit streams later hlimit hwritten hstreams
  rw [lob_apply]
  by_cases hcount : streams.size < 65536
  · rw [if_pos hcount, bind_eq_ok_iff]
    constructor
    · rintro ⟨⟨⟩, between, hfirst, happend⟩
      obtain ⟨-, -, hroom, rfl⟩ := (hrun _ _ _ _ _ hlimit hwritten hstreams).mp hfirst
      cases happend
      exact ⟨rfl, hcount, hroom, by simp⟩
    · rintro ⟨-, -, hroom, rfl⟩
      refine ⟨(), _, (hrun _ _ _ _ _ hlimit hwritten hstreams).mpr
        ⟨trivial, hstreams, hroom, rfl⟩, ?_⟩
      simp [Encoder.append]
  · rw [if_neg hcount]
    constructor
    · intro hthrow
      cases hthrow
    · rintro ⟨-, hnumber, -⟩
      exact absurd hnumber hcount

theorem values {items : List Value} (hitems : ∀ v ∈ items, Occupies byCode (v.extent byCode)
      (∀ part ∈ v.parts, part.Writable) v.contents (Encoder.value v)) :
    Occupies byCode (4 + eachExtent byCode items) (∀ part ∈ partsOfEach items, part.Writable)
      (items.flatMap Value.contents)
      (liftM (Writer.word 4 items.length) >>= fun _ => Encoder.each items) := by
  rw [eachExtent_eq, forall_partsOfEach]
  exact (word 4 _).field (all rfl (fun _ _ => rfl) hitems)

theorem countedRows {cells : List Row} (hcells : ∀ row ∈ cells, ∀ v ∈ row,
      Occupies byCode (v.extent byCode) (∀ part ∈ v.parts, part.Writable) v.contents
        (Encoder.value v)) :
    Occupies byCode (4 + rowsExtent byCode cells) (∀ part ∈ partsOfRows cells, part.Writable)
      (cells.flatMap fun row => row.flatMap Value.contents)
      (liftM (Writer.word 4 cells.length) >>= fun _ => Encoder.rows cells) := by
  have hcons : ∀ (row : Row) rest, Encoder.rows (row :: rest) =
      (liftM (Writer.word 4 row.length) >>= fun _ => Encoder.each row) >>= fun _ =>
        Encoder.rows rest := by
    intro row rest
    rw [Encoder.rows, bind_assoc]
  have hrows := all rfl hcons fun row hrow => values (hcells row hrow)
  rw [rowsExtent_eq]
  apply (word 4 _).field (hrows.congr rfl _)
  rw [forall_partsOfRows]
  exact forall₂_congr fun row hrow => forall_partsOfEach

end Occupies

open Occupies in
/-- Whether a value or a message is written depends on the room for the whole of it. -/
theorem hereditary_occupies (byCode : Bool) : Hereditary
    (fun v => Occupies byCode (v.extent byCode) (∀ part ∈ v.parts, part.Writable) v.contents
      (Encoder.value v))
    (fun m => Occupies byCode (m.extent byCode) (∀ part ∈ m.parts, part.Writable) m.contents
      (Encoder.message m)) where
  null := (tag _).single rfl trivial
  boolean b := ((tag _).field (uint8 _)).single rfl trivial
  integer n := ((tag _).field (uint32 _)).single rfl trivial
  long n := ((tag _).field (int64 _)).single rfl trivial
  double x := ((tag _).field (uint64 _)).single rfl trivial
  string s := ((tag _).field (string _)).single rfl trivial
  binary content := ((tag _).field (lengthBytes _)).single rfl trivial
  list items hitems := by
    rw [Value.contents_list, Value.parts, Encoder.value]
    exact ((tag _).field (values hitems)).inside trivial
  lob l := by
    have hparts : (Value.lob l).parts = [.lob l] := rfl
    have hcontents : (Value.lob l).contents = l.content.toList := by
      obtain ⟨kind, _ | content⟩ := l
      · rfl
      · rfl
    rw [hparts, List.forall_mem_singleton, hcontents, Encoder.value]
    exact lob l
  reference r := (reference r).single rfl trivial
  message m hm := by
    rw [Value.parts, Encoder.value]
    exact hm
  named typeName fields hfields := by
    rw [Value.contents_named, Value.parts, List.forall_mem_cons, Encoder.value]
    exact (nameTag typeName).seq (values hfields)
  handshake handshake :=
    ((tag _).field ((uint8 _).field ((string _).field (uint8 _)))).single rfl trivial
  invocation := by
    rintro ⟨key, service, method, args⟩ hargs
    rw [Message.contents_invocation, Message.parts, List.forall_mem_cons, Encoder.message]
    exact (tag _).field ((uint64 key).field ((uint8 _).field
      ((shortString method).seq (values hargs))))
  answer key v hv := by
    rw [Message.parts, Encoder.message]
    exact ((tag _).field ((uint64 key).field ((uint8 _).field hv))).inside trivial
  failure key e :=
    ((tag _).field ((uint64 key).field ((uint8 _).field (exception e)))).single rfl trivial
  request := by
    rintro ⟨executionId, sql, parameters, fetchSize, cursorType, rowLimit, queryTimeout⟩ hparameters
    rw [Message.contents_request, Message.parts, Encoder.message]
    have hrest := (values hparameters).fieldThen ((uint32 fetchSize).field
      ((uint8 cursorType.code).field ((uint32 rowLimit).field
        (word 8 ((queryTimeout.map Duration.wholeMilliseconds).getD 0)))))
    rw [bind_assoc] at hrest
    exact ((tag _).field ((int64 executionId).field ((string sql).field hrest))).inside trivial
  results := by
    rintro ⟨firstRow, lastRow, finalRow, cols, cells, updateCount, warned, failure⟩ hcells
    rw [Message.contents_results, Message.parts, List.forall_mem_cons, Encoder.message]
    have hwarnings : Occupies byCode _ _ _ _ :=
      ((word 4 warned.length).field (warnings warned)).field (optionalException failure)
    have hrows := (countedRows hcells).fieldThen ((optional int64 updateCount).field hwarnings)
    have hcolumns := ((word 4 cols.length).field (columns cols)).seq hrows
    rw [bind_assoc, bind_assoc, bind_assoc] at hcolumns
    exact (tag _).field ((int64 firstRow).field ((int64 lastRow).field
      ((int64 finalRow).field hcolumns)))
  chunk chunk := ((tag _).field ((lengthBytes _).field (uint8 _))).single rfl trivial
  exception e := (exception e).single rfl trivial
  logonRequest request := by
    have hproperties : Occupies byCode _ _ _ _ :=
      (word 4 request.properties.length).field (properties request.properties)
    exact ((tag _).field ((optional string _).field ((optional string _).field
      ((optional lengthBytes _).field hproperties)))).single rfl trivial
  logonResult result := by
    have hbody : Occupies byCode _ _ _ _ := (string result.sessionId).field
      ((string result.userName).field (optional lengthBytes result.continuation))
    exact ((tag _).field hbody).single rfl trivial

end Encode

namespace Frame

theorem encodePayload_eq_ok_iff {options : Options} {m : Message} {result : Bytes × List Bytes} :
    encodePayload options m = .ok result ↔ ∃ encoder,
      (do Writer.uint8 version; Encoder.message m : Encode Unit)
          (Encoder.start options.tagsByCode options.maxSize) = (.ok (), encoder) ∧
        result = (encoder.writer.bytes, encoder.streams.toList) := by
  unfold encodePayload
  dsimp only
  split
  · next fault encoder hbody =>
    rw [hbody]
    constructor
    · intro h
      cases h
    · rintro ⟨encoder', h, -⟩
      cases h
  · next encoder hbody =>
    rw [hbody]
    constructor
    · intro h
      cases h
      exact ⟨encoder, rfl, rfl⟩
    · rintro ⟨encoder', h, rfl⟩
      cases h
      rfl

theorem sendable_iff {m : Message} :
    m.Sendable ↔ (∀ part ∈ m.parts, part.Writable) ∧ m.contents.length ≤ 65536 := by
  constructor
  · rintro ⟨hwritable, hcountable⟩
    exact ⟨hwritable, (length_contents hwritable).trans_le hcountable⟩
  · rintro ⟨hwritable, hcountable⟩
    exact ⟨hwritable, (length_contents hwritable).ge.trans hcountable⟩

/-- A payload depends on the limit only in whether it fits. -/
theorem exists_payload (byCode : Bool) (m : Message) : ∃ payload : Bytes,
    payload.length = 1 + m.extent byCode ∧ ∀ limit < 2 ^ 32, ∀ result,
      encodePayload ⟨byCode, limit⟩ m = .ok result ↔
        m.Sendable ∧ payload.length ≤ limit ∧ result = (payload, m.contents) := by
  obtain ⟨spelling, hlength, hrun⟩ :=
    (Encode.Occupies.uint8 version).field ((Encode.hereditary_occupies byCode).of_message m)
  refine ⟨spelling 0, hlength 0, ?_⟩
  intro limit hlimit result
  have hwhole := fun later => hrun #[] limit #[] later hlimit (Nat.zero_le _) (Nat.zero_le _)
  rw [encodePayload_eq_ok_iff, sendable_iff, hlength]
  constructor
  · rintro ⟨encoder, hbody, rfl⟩
    obtain ⟨hwritable, hcontents, hroom, rfl⟩ := (hwhole encoder).mp hbody
    exact ⟨⟨hwritable, by simpa using hcontents⟩, by simpa using hroom, by simp [Writer.bytes]⟩
  · rintro ⟨⟨hwritable, hcontents⟩, hroom, rfl⟩
    refine ⟨_, (hwhole _).mpr ⟨hwritable, by simpa using hcontents, by simpa using hroom, rfl⟩, ?_⟩
    simp [Writer.bytes]

/-- A message can be encoded exactly if it can be sent at all and its version and its body are no
longer than the limit, whatever it is made of. The frame begins with just this length, and is the
same under every limit that admits it. -/
theorem encode_eq_ok_iff_fits (byCode : Bool) (m : Message) : ∃ payload : Bytes,
    payload.length = 1 + m.extent byCode ∧ ∀ limit < 2 ^ 32, ∀ frame,
      encode ⟨byCode, limit⟩ m = .ok frame ↔
        m.Sendable ∧ payload.length ≤ limit ∧
          frame = Bytes.ofNat 4 payload.length ++ payload ++
            m.contents.flatMap Appendix.write := by
  obtain ⟨payload, hlength, hpayload⟩ := exists_payload byCode m
  refine ⟨payload, hlength, ?_⟩
  intro limit hlimit frame
  unfold encode
  constructor
  · intro h
    split at h
    · cases h
    · next content contents hcontent =>
      obtain ⟨hsendable, hroom, heq⟩ := (hpayload limit hlimit _).mp hcontent
      cases heq
      cases h
      exact ⟨hsendable, hroom, rfl⟩
  · rintro ⟨hsendable, hroom, rfl⟩
    rw [(hpayload limit hlimit _).mpr ⟨hsendable, hroom, rfl⟩]

/-- One byte less than the payload takes is too little. -/
theorem encode_eq_ok_iff_fits_sampleBatch :
    (∃ frame, encode ⟨true, 1 + sampleBatch.extent true⟩ sampleBatch = .ok frame) ∧
      ¬ ∃ frame, encode ⟨true, sampleBatch.extent true⟩ sampleBatch = .ok frame := by
  obtain ⟨payload, hlength, hencode⟩ := encode_eq_ok_iff_fits true sampleBatch
  have hextent : sampleBatch.extent true < 4096 := by decide
  have hsendable : sampleBatch.Sendable := by
    refine ⟨?_, by decide⟩
    simp [sampleBatch, Message.parts, Value.parts, partsOfRows, partsOfEach, Value.Writable]
    decide
  constructor
  · exact ⟨_, (hencode _ (by omega) _).mpr ⟨hsendable, hlength.le, rfl⟩⟩
  · rintro ⟨frame, hframe⟩
    obtain ⟨-, hroom, -⟩ := (hencode _ (by omega) frame).mp hframe
    omega

end Frame

end QueryClient

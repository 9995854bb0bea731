import QueryClient.Proofs.Bytes
import QueryClient.Proofs.Wire.Delivery
import QueryClient.Proofs.Wire.Grammar
import QueryClient.Proofs.Wire.Operation
import QueryClient.Wire.Encoder

/-!
# What encoders are put together from

The encoders of values and messages are sequences of a few writes, and the formats of what they
write are put together in the same way. A relation between encodes, formats and the contents kept
aside holds of all encoders as soon as it goes through sequences (`Encode.Sequential`) and holds of
those few writes (`Encode.Compositional`).
-/

namespace QueryClient

open Format Operation

variable {α β : Type} {allowed : AllowList} {good : Value → Prop}
  {relates : Encode Unit → Format → List Bytes → Prop} {e e' : Encode Unit} {f : Format}
  {fs : List Format} {contents : List Bytes}

namespace Encode

theorem liftM_apply (w : Write α) (writer : Writer) (streams : Array Bytes) (byCode : Bool) :
    (liftM w : Encode α) ⟨writer, streams, byCode⟩ =
      ((w writer).1, ⟨(w writer).2, streams, byCode⟩) := rfl

@[simp] theorem liftM_bind (w : Write α) (h : α → Write β) :
    (liftM (w >>= h) : Encode β) = liftM w >>= fun a => liftM (h a) := by
  funext ⟨writer, streams, byCode⟩
  rw [liftM_apply]
  rcases hw : w writer with ⟨fault | a, writer'⟩
  · rw [bind_of_error hw, bind_of_error (by rw [liftM_apply, hw])]
  · rw [bind_of_ok hw, bind_of_ok (by rw [liftM_apply, hw])]
    rfl

theorem lob_apply (kind : LobKind) (content : Bytes) (writer : Writer) (streams : Array Bytes)
    (byCode : Bool) : Encoder.lob ⟨kind, some content⟩ ⟨writer, streams, byCode⟩ =
      (if streams.size < 0x10000 then
        (Encoder.tag .streamReference >>= fun _ => liftM (Writer.uint8 kind.code) >>= fun _ =>
          liftM (Writer.word 2 streams.size)) >>= fun _ => Encoder.append content
      else MonadExcept.throw (.protocol .tooManyStreams) : Encode Unit)
        ⟨writer, streams, byCode⟩ := by
  simp only [bind_assoc]
  rfl

@[simp] theorem liftM_ite (p : Prop) [Decidable p] (w w' : Write α) :
    (liftM (if p then w else w') : Encode α) = if p then liftM w else liftM w' :=
  apply_ite _ p w w'

/-- A relation that goes through sequences, and holds of writing bytes as they are and of writes
under a condition. -/
structure Sequential (relates : Encode Unit → Format → List Bytes → Prop) : Prop where
  seq : ∀ {e e' f g contents contents'}, relates e f contents → relates e' g contents' →
    relates (e >>= fun _ => e') (Format.seq f g) (contents ++ contents')
  pure : relates (Pure.pure ()) (fields []) []
  put : ∀ content, relates (liftM (Writer.put content)) (exactly content) []
  guarded : ∀ {p : Prop} [Decidable p] {e f contents} (fault : Fault), (p → relates e f contents) →
    relates (if p then e else MonadExcept.throw fault) (f.given p) contents

namespace Sequential

variable (h : Sequential relates)
include h

/-- A field that announces nothing, written before the others. -/
theorem field (he : relates e f []) (he' : relates e' (fields fs) contents) :
    relates (e >>= fun _ => e') (fields (f :: fs)) contents :=
  h.seq he he'

/-- A field written before others that announce nothing. -/
theorem fieldThen (he : relates e f contents) (he' : relates e' (fields fs) []) :
    relates (e >>= fun _ => e') (fields (f :: fs)) contents := by
  have hseq := h.seq he he'
  rwa [List.append_nil] at hseq

omit h in
theorem last (he : relates e f contents) : relates e (fields [f]) contents := by
  rwa [fields_singleton]

/-- A field written in two steps, which announces nothing. -/
theorem fieldInTwo {e₁ e₂ : Encode Unit} (he : relates (e₁ >>= fun _ => e₂) f [])
    (hrest : relates e (fields fs) contents) :
    relates (e₁ >>= fun _ => e₂ >>= fun _ => e) (fields (f :: fs)) contents := by
  rw [← bind_assoc]
  exact h.field he hrest

/-- A field written in two steps before others that announce nothing. -/
theorem fieldInTwoThen {e₁ e₂ : Encode Unit} (he : relates (e₁ >>= fun _ => e₂) f contents)
    (hrest : relates e (fields fs) []) :
    relates (e₁ >>= fun _ => e₂ >>= fun _ => e) (fields (f :: fs)) contents := by
  rw [← bind_assoc]
  exact h.fieldThen he hrest

theorem word (width n : Nat) :
    relates (liftM (Writer.word width n)) (Format.word width n) [] :=
  h.put _

theorem uint8 (n : UInt8) : relates (liftM (Writer.uint8 n)) (byte n) [] := by
  have hword := h.word 1 n.toNat
  rwa [Format.word, Bytes.ofNat_one, UInt8.ofNat_toNat] at hword

theorem uint32 (n : UInt32) : relates (liftM (Writer.uint32 n)) (Format.uint32 n) [] :=
  h.word 4 _

theorem uint64 (n : UInt64) : relates (liftM (Writer.uint64 n)) (Format.uint64 n) [] :=
  h.word 8 _

theorem int32 (n : Int32) : relates (liftM (Writer.int32 n)) (Format.int32 n) [] :=
  h.uint32 _

theorem int64 (n : Int64) : relates (liftM (Writer.int64 n)) (Format.int64 n) [] :=
  h.uint64 _

theorem double (x : Double) : relates (liftM (Writer.double x)) (Format.double x) [] :=
  h.uint64 _

theorem boolean (b : Bool) : relates (liftM (Writer.boolean b)) (Format.boolean b) [] :=
  h.uint8 _

theorem lengthBytes (content : Bytes) :
    relates (liftM (Writer.lengthBytes content)) (Format.lengthBytes content) [] := by
  rw [Writer.lengthBytes, liftM_ite, liftM_bind]
  exact h.guarded _ fun _ => h.field (h.word 4 _) (last (h.put content))

theorem string (s : String) : relates (liftM (Writer.string s)) (text s) [] :=
  h.lengthBytes _

theorem shortString (s : String) :
    relates (liftM (Writer.shortString s)) (shortText s) [] := by
  rw [Writer.shortString, liftM_ite, liftM_bind]
  exact h.guarded _ fun _ => h.field (h.word 2 _) (last (h.put _))

theorem nameTag (name : String) :
    relates (Encoder.nameTag name) (fields [byte Kind.byName, shortText name]) [] :=
  h.field (h.uint8 _) (last (h.shortString _))

theorem optional {write : α → Write Unit} {f : α → Format}
    (hwrite : ∀ a, relates (liftM (write a)) (f a) []) (o : Option α) :
    relates (liftM (Writer.optional write o)) (Format.optional f o) [] := by
  cases o with
  | none => exact h.boolean false
  | some a =>
    rw [Writer.optional, Encode.liftM_bind]
    exact h.field (h.boolean true) (last (hwrite a))

/-- Things one after another. -/
theorem all {write : α → Encode Unit} {f : α → Format} {kept : α → List Bytes}
    {writeAll : List α → Encode Unit} (hnil : writeAll [] = Pure.pure ())
    (hcons : ∀ a rest, writeAll (a :: rest) = write a >>= fun _ => writeAll rest) {items : List α}
    (hwrite : ∀ a ∈ items, relates (write a) (f a) (kept a)) :
    relates (writeAll items) (fields (items.map f)) (items.flatMap kept) := by
  induction items with
  | nil =>
    rw [hnil]
    exact h.pure
  | cons a rest ih =>
    rw [List.forall_mem_cons] at hwrite
    rw [hcons, List.map_cons, List.flatMap_cons]
    exact h.seq hwrite.1 (ih hwrite.2)

end Sequential

/-- A relation that holds of whatever encoders are put together from. Of large objects and of values
of foreign types it need only hold for good ones. -/
structure Compositional (allowed : AllowList) (good : Value → Prop)
    (relates : Encode Unit → Format → List Bytes → Prop) : Prop extends Sequential relates where
  counted : ∀ {e fs contents}, (∀ f ∈ fs, f.Solid) → relates e (fields fs) contents →
    relates (liftM (Writer.word 4 fs.length) >>= fun _ => e) (Format.counted fs) contents
  tag : ∀ kind, relates (Encoder.tag kind) (Format.tag allowed (.known kind)) []
  foreignTag : ∀ typeName fields, good (.named typeName fields) →
    relates (Encoder.nameTag typeName) (Format.tag allowed (.foreign typeName)) []
  lob : ∀ l, good (.lob l) → relates (Encoder.lob l)
    (fields [Format.tag allowed (.known .streamReference), byte l.kind.code, stream l.kind])
    l.content.toList
  remoteLength : ∀ length,
    relates (liftM (Writer.int64 ((Option.map UInt64.toInt64 length).getD (-1))))
      (Format.remoteLength (sentLength length)) []
  timeout : ∀ t : Option Duration,
    relates (liftM (Writer.word 8 ((t.map Duration.wholeMilliseconds).getD 0)))
      (Format.timeout (sentTimeout t)) []

namespace Compositional

open QueryClient.Encode.Sequential (last)

variable (h : Compositional allowed good relates)
include h

/-- Things behind their number. -/
theorem countedAll {f : α → Format} {items : List α} (hsolid : ∀ a, (f a).Solid)
    (he : relates e (fields (items.map f)) contents) :
    relates (liftM (Writer.word 4 items.length) >>= fun _ => e) (Format.counted (items.map f))
      contents := by
  have hcounted := h.counted (List.forall_mem_map.mpr fun a _ => hsolid a) he
  rwa [List.length_map] at hcounted

theorem reference (r : LobReference) : relates (Encoder.reference r)
    (Format.seq (Format.tag allowed (.known .lobReference))
      (Format.reference ⟨r.id, r.kind, sentLength r.length⟩)) [] :=
  h.seq (h.tag _) (h.field (h.string _) (h.field (h.uint8 _) (last (h.remoteLength _))))

theorem exceptionBody (e : ServerException) :
    relates (Encoder.exceptionBody e) (Format.exceptionBody e) [] :=
  h.field (h.optional h.string _) (h.field (h.optional h.string _) (last (h.string _)))

theorem exception (e : ServerException) :
    relates (Encoder.exception e) (Format.exception allowed e) [] :=
  h.seq (h.tag _) (h.exceptionBody e)

theorem optionalException (o : Option ServerException) :
    relates (Encoder.optionalException o) (Format.optionalException allowed o) [] := by
  cases o with
  | some e => exact h.exception e
  | none => exact h.tag .null

theorem handshakeBody (handshake : Handshake) :
    relates (Encoder.handshakeBody handshake) (Format.handshakeBody handshake) [] :=
  h.field (h.uint8 _) (h.field (h.string _) (last (h.uint8 _)))

theorem chunkBody (chunk : Chunk) : relates (Encoder.chunkBody chunk) (Format.chunkBody chunk) [] :=
  h.field (h.lengthBytes _) (last (h.boolean _))

theorem properties (entries : List (String × String)) :
    relates (Encoder.properties entries) (fields (entries.map property)) [] := by
  induction entries with
  | nil => exact h.pure
  | cons entry rest ih =>
    rw [Encoder.properties, ← bind_assoc]
    exact h.field (h.field (h.string _) (last (h.string _))) ih

theorem columns (cols : List Column) :
    relates (Encoder.columns cols) (fields (cols.map column)) [] := by
  induction cols with
  | nil => exact h.pure
  | cons c rest ih =>
    rw [Encoder.columns, ← bind_assoc]
    exact h.field (h.field (h.string _) (last (h.shortString _))) ih

theorem warnings (texts : List String) :
    relates (Encoder.warnings texts) (fields (texts.map text)) [] := by
  induction texts with
  | nil => exact h.pure
  | cons s rest ih => exact h.field (h.string s) ih

theorem logonRequestBody (request : LogonRequest) :
    relates (Encoder.logonRequestBody request) (Format.logonRequestBody request) [] :=
  h.field (h.optional h.string _) (h.field (h.optional h.string _) (h.field
    (h.optional h.lengthBytes _) (last (h.countedAll solid_property (h.properties _)))))

theorem logonResultBody (result : LogonResult) :
    relates (Encoder.logonResultBody result) (Format.logonResultBody result) [] :=
  h.field (h.string _) (h.field (h.string _) (last (h.optional h.lengthBytes _)))

/-- Values behind their number. -/
theorem values {items : List Value} (hitems : ∀ v ∈ items,
      relates (Encoder.value v) (Format.value allowed v.asSent) v.contents) :
    relates (liftM (Writer.word 4 items.length) >>= fun _ => Encoder.each items)
      (Format.counted (Format.each allowed (asSentEach items))) (items.flatMap Value.contents) := by
  rw [each_eq, asSentEach_eq, List.map_map]
  exact h.countedAll (fun v => solid_value _ _) (h.all rfl (fun _ _ => rfl) hitems)

/-- Rows behind their number. -/
theorem countedRows {cells : List Row} (hcells : ∀ row ∈ cells, ∀ v ∈ row,
      relates (Encoder.value v) (Format.value allowed v.asSent) v.contents) :
    relates (liftM (Writer.word 4 cells.length) >>= fun _ => Encoder.rows cells)
      (Format.counted (Format.rows allowed (asSentRows cells)))
      (cells.flatMap fun row => row.flatMap Value.contents) := by
  have hcons : ∀ (row : Row) rest, Encoder.rows (row :: rest) =
      (liftM (Writer.word 4 row.length) >>= fun _ => Encoder.each row) >>= fun _ =>
        Encoder.rows rest := by
    intro row rest
    rw [Encoder.rows, bind_assoc]
  rw [rows_eq, asSentRows_eq, List.map_map]
  refine h.countedAll (fun row => solid_counted _) (h.all rfl hcons fun row hrow => ?_)
  have hvalues := h.values (hcells row hrow)
  rwa [each_eq, asSentEach_eq] at hvalues

/-- What holds of the writes holds of the encoders, with the format of what is sent. -/
theorem hereditary : Hereditary
    (fun v => (∀ part ∈ v.parts, good part) →
      relates (Encoder.value v) (Format.value allowed v.asSent) v.contents)
    (fun m => (∀ part ∈ m.parts, good part) →
      relates (Encoder.message m) (Format.message allowed m.asSent) m.contents) where
  null _ := last (h.tag _)
  boolean b _ := h.seq (h.tag _) (h.boolean b)
  integer n _ := h.seq (h.tag _) (h.int32 n)
  long n _ := h.seq (h.tag _) (h.int64 n)
  double x _ := h.seq (h.tag _) (h.double x)
  string s _ := h.seq (h.tag _) (h.string s)
  binary content _ := h.seq (h.tag _) (h.lengthBytes content)
  list items ih hgood := by
    rw [Value.parts, List.forall_mem_cons, forall_partsOfEach] at hgood
    rw [Value.asSent, Value.contents_list, Encoder.value]
    exact h.seq (h.tag _) (h.values fun v hv => ih v hv (hgood.2 v hv))
  lob l hgood := by
    have hlob := h.lob l (hgood _ List.mem_cons_self)
    obtain ⟨kind, content⟩ := l
    have hcontents : (Value.lob ⟨kind, content⟩).contents = content.toList := by
      cases content <;> rfl
    rw [Value.asSent, hcontents, Encoder.value, Format.value, Format.body, given_of rfl]
    exact hlob
  reference r _ := h.reference r
  message m ih hgood := by
    rw [Value.asSent, value_message, Encoder.value]
    exact ih hgood
  named typeName parts ih hgood := by
    rw [Value.parts, List.forall_mem_cons, forall_partsOfEach] at hgood
    rw [Value.asSent, Value.contents_named, Encoder.value]
    exact h.seq (h.foreignTag _ _ hgood.1) (h.values fun v hv => ih v hv (hgood.2 v hv))
  handshake handshake _ := h.seq (h.tag _) (h.handshakeBody handshake)
  invocation i ih hgood := by
    obtain ⟨key, service, method, args⟩ := i
    rw [Message.parts, List.forall_mem_cons, forall_partsOfEach] at hgood
    have hargs := h.values fun v hv => ih v hv (hgood.2 v hv)
    rw [Message.asSent, Message.contents_invocation, Encoder.message]
    exact h.seq (h.tag _)
      (h.field (h.uint64 key) (h.field (h.uint8 _) (h.field (h.shortString method) (last hargs))))
  answer key v ih hgood := by
    rw [Message.parts, List.forall_mem_cons] at hgood
    have hv := ih hgood.2
    rw [Message.asSent, Encoder.message]
    exact h.seq (h.tag _) (h.field (h.uint64 key) (h.field (h.boolean false) (last hv)))
  failure key e _ := by
    rw [Message.asSent, Encoder.message]
    exact h.seq (h.tag _)
      (h.field (h.uint64 key) (h.field (h.boolean true) (last (h.exception e))))
  request r ih hgood := by
    obtain ⟨executionId, sql, parameters, fetchSize, cursorType, rowLimit, queryTimeout⟩ := r
    rw [Message.parts, List.forall_mem_cons, forall_partsOfEach] at hgood
    have hparameters := h.values fun v hv => ih v hv (hgood.2 v hv)
    rw [Message.asSent, Message.contents_request, Encoder.message]
    exact h.seq (h.tag _) (h.field (h.int64 executionId) (h.field (h.string sql)
      (h.fieldInTwoThen hparameters (h.field (h.uint32 fetchSize) (h.field (h.uint8 _)
        (h.field (h.uint32 rowLimit) (last (h.timeout queryTimeout))))))))
  results r ih hgood := by
    obtain ⟨firstRow, lastRow, finalRow, cols, cells, updateCount, warned, failure⟩ := r
    rw [Message.parts, List.forall_mem_cons, forall_partsOfRows] at hgood
    have hcolumns := h.countedAll solid_column (h.columns cols)
    have hrows := h.countedRows fun row hrow v hv => ih row hrow v hv (hgood.2 row hrow v hv)
    have hwarnings := h.countedAll solid_text (h.warnings warned)
    rw [Message.asSent, Message.contents_results, Encoder.message]
    exact h.seq (h.tag _) (h.field (h.int64 firstRow) (h.field (h.int64 lastRow)
      (h.field (h.int64 finalRow) (h.fieldInTwo hcolumns (h.fieldInTwoThen hrows
        (h.field (h.optional h.int64 updateCount) (h.fieldInTwo hwarnings
          (last (h.optionalException failure)))))))))
  chunk c _ := h.seq (h.tag _) (h.chunkBody c)
  exception e _ := h.exception e
  logonRequest request _ := h.seq (h.tag _) (h.logonRequestBody request)
  logonResult result _ := h.seq (h.tag _) (h.logonResultBody result)

end Compositional

end Encode

end QueryClient

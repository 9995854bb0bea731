import QueryClient.Proofs.Wire.AllowList
import QueryClient.Proofs.Wire.Framing
import QueryClient.Proofs.Wire.Unmistakable

/-!
# What arrives of a message

A message may name types that the peer does not permit, and be nested too deep or be too long for
it. But where its frame is accepted, it gives the message as a body says it, with the contents
bound, unless a type has the name of a kind. That is the message itself exactly if also every known
length fits into the sign and every timeout is some whole milliseconds, not zero and not too many;
otherwise it arrives changed.
-/

namespace QueryClient

open Format

variable {allowed : AllowList} {limit : Nat}

/-- A value that does not pass for one of a registered kind. -/
def Value.Unregistered : Value → Prop
  | .named typeName _ => ∀ kind : Kind, typeName ≠ kind.name
  | _ => True

/-- What an answer ends with. -/
def Format.outcome (allowed : AllowList) : Except ServerException Value → Format
  | .ok v => value allowed v
  | .error e => exception allowed e

namespace Emits

variable {α γ : Type} {e e' : Encode Unit} {contents contents' : List Bytes}

theorem mapOrDead {f : α → Format} {g : γ → Format} {q : γ → Prop} (φ : α → γ)
    (hto : ∀ c, q c → ∃ a, c = φ a) (hg : ∀ a, g (φ a) = f a) {a : α} (hq : q (φ a))
    (he : Emits limit e (orDead f a) contents) :
    Emits limit e (orDead (fun c => (g c).given (q c)) (φ a)) contents :=
  he.mono fun _ _ _ => orDead_map φ hto hg hq

/-- A value is not mistaken if neither its tag is, nor what follows that tag. -/
theorem valueOrDead {v : Value} (htag : Emits limit e (orDead (Format.tag allowed) v.tag) [])
    (hbody : Emits limit e'
      (orDead (fun v' => (Format.body allowed v').given (v'.tag = v.tag)) v) contents) :
    Emits limit (e >>= fun _ => e') (orDead (Format.value allowed) v) contents := by
  have hfamily : Format.value allowed = fun v' =>
      (fields (Format.tag allowed v'.tag :: [Format.body allowed v'])).given True := by
    funext v'
    rw [given_true, fields_cons, fields_singleton]
    rfl
  rw [hfamily]
  apply fieldOrDead Value.tag unambiguous_tag htag
  simpa only [fields_singleton, true_and] using hbody

section Values

variable (hlimit : limit < 2 ^ 32)
include hlimit

/-- Values behind their number are not mistaken if none of them is. -/
theorem valuesOrDead {items : List Value} (hitems : ∀ v ∈ items,
      Emits limit (Encoder.value v) (orDead (Format.value allowed) v.asSent) v.contents) :
    Emits limit (liftM (Writer.word 4 items.length) >>= fun _ => Encoder.each items)
      (orDead (fun items' : List Value => Format.counted (items'.map (Format.value allowed)))
        (asSentEach items)) (items.flatMap Value.contents) := by
  have hsolid : ∀ v, (orDead (Format.value allowed) v).Solid :=
    solid_orDead (solid_value allowed) fun announced =>
      ⟨.null, _, _, _, _, _, _, .inl ⟨rfl, rfl⟩, ⟨rfl, rfl⟩, rfl, rfl⟩
  have hall : Emits limit (Encoder.each items) _ _ :=
    sequential.all rfl (fun _ _ => rfl) hitems
  have hcounted := counted hlimit (List.forall_mem_map.mpr fun v _ => hsolid v.asSent) hall
  rw [List.length_map] at hcounted
  apply hcounted.mono
  intro announced bytes kinds h
  rw [asSentEach_eq]
  apply orDead_counted unambiguous_value
  rwa [List.map_map]

/-- Rows behind their number are not mistaken if none of their values is. -/
theorem rowsOrDead {cells : List Row} (hcells : ∀ row ∈ cells, ∀ v ∈ row,
      Emits limit (Encoder.value v) (orDead (Format.value allowed) v.asSent) v.contents) :
    Emits limit (liftM (Writer.word 4 cells.length) >>= fun _ => Encoder.rows cells)
      (orDead (fun cells' : List Row =>
        Format.counted (cells'.map fun row => Format.counted (row.map (Format.value allowed))))
        (asSentRows cells)) (cells.flatMap fun row => row.flatMap Value.contents) := by
  have hcons : ∀ (row : Row) rest, Encoder.rows (row :: rest) =
      (liftM (Writer.word 4 row.length) >>= fun _ => Encoder.each row) >>= fun _ =>
        Encoder.rows rest := by
    intro row rest
    rw [Encoder.rows, bind_assoc]
  have hsolid : ∀ row, (orDead (fun row : Row =>
      Format.counted (row.map (Format.value allowed))) row).Solid :=
    solid_orDead (fun row => solid_counted _) fun announced =>
      ⟨[], _, _, Nat.two_pow_pos 32, _, _, _, _, ⟨rfl, rfl⟩, ⟨rfl, rfl⟩, rfl, rfl⟩
  have hall : Emits limit (Encoder.rows cells) _ _ :=
    sequential.all rfl hcons fun row hrow => valuesOrDead hlimit (hcells row hrow)
  have hcounted := counted hlimit (List.forall_mem_map.mpr fun row _ => hsolid _) hall
  rw [List.length_map] at hcounted
  apply hcounted.mono
  intro announced bytes kinds h
  rw [asSentRows_eq]
  apply orDead_counted unambiguous_values
  rw [List.map_map]
  simpa only [asSentEach_eq, Function.comp_def] using h

end Values

/-- A value with nothing inside it, which is no name or a permitted one. -/
theorem permittedValue (hlimit : limit < 2 ^ 32) {v : Value} (hparts : v.parts = [v])
    (h : v.Permitted allowed) :
    Emits limit (Encoder.value v) (orDead (Format.value allowed) v.asSent) v.contents := by
  apply alive rfl ((compositional hlimit).hereditary.of_value v _)
  rw [hparts, List.forall_mem_singleton]
  exact h

/-- A message with nothing inside it. -/
theorem emptyMessage (hlimit : limit < 2 ^ 32) {m : Message} (hparts : m.parts = [.message m]) :
    Emits limit (Encoder.message m) (orDead (Format.value allowed) (.message m.asSent))
      m.contents := by
  apply alive (value_message allowed m.asSent) ((compositional hlimit).hereditary.of_message m _)
  rw [hparts, List.forall_mem_singleton]
  trivial

theorem knownTag (kind : Kind) :
    Emits limit (Encoder.tag kind) (orDead (Format.tag allowed) (.known kind)) [] :=
  alive rfl (tag kind)

/-- A message behind its tag, from what follows the tag. -/
theorem messageOrDead {f : α → Format} {kind : Kind} (φ : α → Message)
    (hkind : ∀ v : Value, v.tag = .known kind → ∃ m, v = .message m ∧ m.kind = kind)
    (hall : ∀ m : Message, m.kind = kind → ∃ a, m = φ a)
    (hf : ∀ a, Format.messageBody allowed (φ a) = f a) {a : α} (hφ : (φ a).kind = kind)
    (he : Emits limit e (orDead f a) contents) :
    Emits limit (Encoder.tag kind >>= fun _ => e)
      (orDead (Format.value allowed) (.message (φ a))) contents := by
  have htag : (Value.message (φ a)).tag = .known kind := congrArg Tag.known hφ
  apply valueOrDead
  · rw [htag]
    exact knownTag kind
  · rw [htag]
    refine mapOrDead (fun a => Value.message (φ a)) ?_ (fun a => ?_) htag he
    · intro v hv
      obtain ⟨m, rfl, hm⟩ := hkind v hv
      obtain ⟨a, rfl⟩ := hall m hm
      exact ⟨a, rfl⟩
    · rw [body, hf]

section Messages

theorem answerOrDead {key : UInt64} {v : Value}
    (hv : Emits limit (Encoder.value v) (orDead (Format.value allowed) v.asSent) v.contents) :
    Emits limit (Encoder.message (.reply ⟨key, .ok v⟩))
      (orDead (Format.value allowed) (.message (Message.reply ⟨key, .ok v⟩).asSent))
      (Message.reply ⟨key, .ok v⟩).contents := by
  rw [Message.asSent, Encoder.message]
  refine messageOrDead (f := fun r => (fields [Format.uint64 r.key,
    Format.boolean r.outcome.isOk.not, Format.outcome allowed r.outcome]).given True)
    Message.reply (fun v => v.of_tag) (fun m => m.of_kind) ?_ rfl ?_
  · rintro ⟨key', e | v⟩ <;> rw [messageBody, given_true] <;> rfl
  · refine headField Reply.key unambiguous_uint64 (sequential.uint64 key) ?_
    refine headField (fun r : Reply => r.outcome.isOk.not) unambiguous_boolean
      (sequential.boolean false) ?_
    refine mapOrDead (fun v => (⟨key, .ok v⟩ : Reply)) ?_ (fun v => fields_singleton _) ?_ hv
    · rintro ⟨key', e | v⟩ ⟨⟨-, hkey⟩, hok⟩
      · cases hok
      · cases hkey
        exact ⟨v, rfl⟩
    · exact ⟨⟨trivial, rfl⟩, rfl⟩

variable (hlimit : limit < 2 ^ 32)
include hlimit

theorem invocationOrDead {i : Invocation} (hargs : ∀ v ∈ i.args,
      Emits limit (Encoder.value v) (orDead (Format.value allowed) v.asSent) v.contents) :
    Emits limit (Encoder.message (.invocation i))
      (orDead (Format.value allowed) (.message (Message.invocation i).asSent))
      (Message.invocation i).contents := by
  obtain ⟨key, service, method, args⟩ := i
  have hvalues := valuesOrDead hlimit hargs
  rw [Message.asSent, Message.contents_invocation, Encoder.message]
  refine messageOrDead (f := fun i => (fields [Format.uint64 i.key, byte i.service.code,
    shortText i.method, Format.counted (i.args.map (Format.value allowed))]).given True)
    Message.invocation (fun v => v.of_tag) (fun m => m.of_kind) ?_ rfl ?_
  · rintro ⟨key', service', method', args'⟩
    rw [messageBody, each_eq, given_true]
  · refine headField Invocation.key unambiguous_uint64 (sequential.uint64 key) ?_
    refine headField Invocation.service unambiguous_service (sequential.uint8 service.code) ?_
    refine headField Invocation.method unambiguous_shortText (sequential.shortString method) ?_
    refine lastField (f := fun args' : List Value =>
      Format.counted (args'.map (Format.value allowed))) Invocation.args ?_ hvalues
    exact ⟨⟨⟨trivial, rfl⟩, rfl⟩, rfl⟩

theorem requestOrDead {r : Request} (hparameters : ∀ v ∈ r.parameters,
      Emits limit (Encoder.value v) (orDead (Format.value allowed) v.asSent) v.contents) :
    Emits limit (Encoder.message (.request r))
      (orDead (Format.value allowed) (.message (Message.request r).asSent))
      (Message.request r).contents := by
  obtain ⟨executionId, sql, parameters, fetchSize, cursorType, rowLimit, queryTimeout⟩ := r
  have hvalues := valuesOrDead hlimit hparameters
  have hs : Encode.Sequential (Emits limit) := sequential
  have htail := hs.field (hs.uint32 fetchSize) (hs.field (hs.uint8 cursorType.code)
    (hs.field (hs.uint32 rowLimit) (Encode.Sequential.last (timeout queryTimeout))))
  rw [Message.asSent, Message.contents_request, Encoder.message]
  refine messageOrDead (f := fun r => (fields [Format.int64 r.executionId, text r.sql,
    Format.counted (r.parameters.map (Format.value allowed)), Format.uint32 r.fetchSize,
    byte r.cursorType.code, Format.uint32 r.rowLimit,
    Format.timeout r.queryTimeout]).given True)
    Message.request (fun v => v.of_tag) (fun m => m.of_kind) ?_ rfl ?_
  · rintro ⟨executionId', sql', parameters', fetchSize', cursorType', rowLimit', queryTimeout'⟩
    rw [messageBody, each_eq, given_true]
  · refine headField Request.executionId unambiguous_int64 (sequential.int64 executionId) ?_
    refine headField Request.sql unambiguous_text (sequential.string sql) ?_
    rw [← bind_assoc, ← List.append_nil (List.flatMap ..)]
    refine fieldOrDead Request.parameters unambiguous_values hvalues ?_
    refine tailFields ?_ htail
    exact ⟨⟨⟨trivial, rfl⟩, rfl⟩, rfl⟩

theorem resultsOrDead {r : Results} (hcells : ∀ row ∈ r.rows, ∀ v ∈ row,
      Emits limit (Encoder.value v) (orDead (Format.value allowed) v.asSent) v.contents) :
    Emits limit (Encoder.message (.results r))
      (orDead (Format.value allowed) (.message (Message.results r).asSent))
      (Message.results r).contents := by
  obtain ⟨firstRow, lastRow, finalRow, cols, cells, updateCount, warned, failure⟩ := r
  have hs : Encode.Compositional allowed _ (Emits limit) := compositional hlimit
  have hcolumns := hs.countedAll solid_column (hs.columns cols)
  have hrows := rowsOrDead hlimit hcells
  have htail := hs.field (hs.optional hs.int64 updateCount)
    (hs.fieldInTwo (hs.countedAll solid_text (hs.warnings warned))
      (Encode.Sequential.last (hs.optionalException failure)))
  rw [Message.asSent, Message.contents_results, Encoder.message]
  refine messageOrDead (f := fun r => (fields [Format.int64 r.firstRow, Format.int64 r.lastRow,
    Format.int64 r.finalRow, Format.counted (r.columns.map column),
    Format.counted (r.rows.map fun row => Format.counted (row.map (Format.value allowed))),
    Format.optional Format.int64 r.updateCount, Format.counted (r.warnings.map text),
    Format.optionalException allowed r.exception]).given True)
    Message.results (fun v => v.of_tag) (fun m => m.of_kind) ?_ rfl ?_
  · rintro ⟨firstRow', lastRow', finalRow', cols', cells', updateCount', warned', failure'⟩
    rw [messageBody, rows_eq, given_true]
  · refine headField Results.firstRow unambiguous_int64 (sequential.int64 firstRow) ?_
    refine headField Results.lastRow unambiguous_int64 (sequential.int64 lastRow) ?_
    refine headField Results.finalRow unambiguous_int64 (sequential.int64 finalRow) ?_
    rw [← bind_assoc]
    refine headField Results.columns unambiguous_columns hcolumns ?_
    rw [← bind_assoc, ← List.append_nil (List.flatMap ..)]
    refine fieldOrDead Results.rows unambiguous_rows hrows ?_
    refine tailFields ?_ htail
    exact ⟨⟨⟨⟨⟨trivial, rfl⟩, rfl⟩, rfl⟩, rfl⟩, rfl⟩

end Messages

/-- Whatever is written of a value or a message is not mistaken for another, if none of its parts
passes for one of a registered kind. -/
theorem hereditary_orDead (hlimit : limit < 2 ^ 32) : Hereditary
    (fun v => (∀ part ∈ v.parts, part.Unregistered) →
      Emits limit (Encoder.value v) (orDead (Format.value allowed) v.asSent) v.contents)
    (fun m => (∀ part ∈ m.parts, part.Unregistered) →
      Emits limit (Encoder.message m) (orDead (Format.value allowed) (.message m.asSent))
        m.contents) where
  null _ := permittedValue hlimit rfl trivial
  boolean _ _ := permittedValue hlimit rfl trivial
  integer _ _ := permittedValue hlimit rfl trivial
  long _ _ := permittedValue hlimit rfl trivial
  double _ _ := permittedValue hlimit rfl trivial
  string _ _ := permittedValue hlimit rfl trivial
  binary _ _ := permittedValue hlimit rfl trivial
  list items ih hnames := by
    rw [Value.parts, List.forall_mem_cons, forall_partsOfEach] at hnames
    rw [Value.asSent, Value.contents_list, Encoder.value]
    apply valueOrDead (knownTag .list)
    apply mapOrDead Value.list (fun v hv => v.of_tag hv) (fun items' => ?_) rfl
      (valuesOrDead hlimit fun v hv => ih v hv (hnames.2 v hv))
    rw [body, each_eq]
  lob _ _ := permittedValue hlimit rfl trivial
  reference _ _ := permittedValue hlimit rfl trivial
  message m ih hnames := by
    rw [Value.asSent, Encoder.value]
    exact ih hnames
  named typeName parts ih hnames := by
    rw [Value.parts, List.forall_mem_cons, forall_partsOfEach] at hnames
    rw [Value.asSent, Value.contents_named, Encoder.value]
    apply valueOrDead
    · exact (sequential.nameTag typeName).mono fun _ _ _ => orDead_foreign hnames.1
    apply mapOrDead (q := fun v => v.tag = .foreign typeName) (Value.named typeName) ?_
      (fun parts' => ?_) rfl (valuesOrDead hlimit fun v hv => ih v hv (hnames.2 v hv))
    · intro v hv
      cases v with
      | named typeName' parts' =>
        cases hv
        exact ⟨parts', rfl⟩
      | _ => cases hv
    · rw [body, each_eq]
  handshake _ _ := emptyMessage hlimit rfl
  invocation i ih hnames := by
    cases i
    rw [Message.parts, List.forall_mem_cons, forall_partsOfEach] at hnames
    exact invocationOrDead hlimit fun v hv => ih v hv (hnames.2 v hv)
  answer key v ih hnames := by
    rw [Message.parts, List.forall_mem_cons] at hnames
    exact answerOrDead (ih hnames.2)
  failure _ _ _ := emptyMessage hlimit rfl
  request r ih hnames := by
    cases r
    rw [Message.parts, List.forall_mem_cons, forall_partsOfEach] at hnames
    exact requestOrDead hlimit fun v hv => ih v hv (hnames.2 v hv)
  results r ih hnames := by
    cases r
    rw [Message.parts, List.forall_mem_cons, forall_partsOfRows] at hnames
    exact resultsOrDead hlimit fun row hrow v hv => ih row hrow v hv (hnames.2 row hrow v hv)
  chunk _ _ := emptyMessage hlimit rfl
  exception _ _ := emptyMessage hlimit rfl
  logonRequest _ _ := emptyMessage hlimit rfl
  logonResult _ _ := emptyMessage hlimit rfl

end Emits

/-! ## What the wire says in full -/

/-- A length arrives if it fits into the sign. -/
theorem sentLength_eq_self_iff {length : Option UInt64} :
    sentLength length = length ↔ ∀ n, length = some n → n.toNat < 2 ^ 63 := by
  constructor
  · rintro h n rfl
    by_contra hlarge
    have hlt := n.toNat_lt
    have hsigned : n.toInt64 = Int64.ofNat n.toNat := by
      rw [← UInt64.toInt64_ofNat', UInt64.ofNat_toNat]
    have hsize : Int64.size = 2 ^ 64 := rfl
    have hnegative : n.toInt64 < 0 := by
      rw [Int64.lt_iff_toInt_lt, hsigned, Int64.toInt_ofNat', Int64.toInt_zero, Int.bmod,
        hsize]
      omega
    rw [sentLength, Option.map_some, Option.getD_some, if_pos hnegative] at h
    cases h
  · intro h
    cases length with
    | none => rfl
    | some n => exact sentLength_some (h n rfl)

/-- A timeout arrives if it is some whole milliseconds that eight bytes can say, and not zero. -/
theorem sentTimeout_eq_self_iff {timeout : Option Duration} : sentTimeout timeout = timeout ↔
    ∀ d, timeout = some d → ∃ n, 0 < n ∧ n < 2 ^ 64 ∧ d = Duration.milliseconds n := by
  constructor
  · rintro h d rfl
    rw [sentTimeout] at h
    split_ifs at h with hzero
    exact ⟨_, Nat.pos_of_ne_zero hzero, UInt64.toNat_lt _, (Option.some.inj h).symm⟩
  · intro h
    cases timeout with
    | none => rfl
    | some d =>
      obtain ⟨n, hpos, hlt, rfl⟩ := h d rfl
      exact sentTimeout_some hpos hlt

/-- A message that the wire says in full: no name in it is that of a kind, every known length fits
into the sign, and every timeout is some whole milliseconds, not zero and not too many. -/
structure Message.Carried (m : Message) : Prop where
  names : ∀ typeName parts, .named typeName parts ∈ m.parts → ∀ kind : Kind, typeName ≠ kind.name
  lengths : ∀ reference length, .reference reference ∈ m.parts →
    reference.length = some length → length.toNat < 2 ^ 63
  timeouts : ∀ request timeout, .message (.request request) ∈ m.parts →
    request.queryTimeout = some timeout →
      ∃ n, 0 < n ∧ n < 2 ^ 64 ∧ timeout = Duration.milliseconds n

namespace Message

/-- The timeout of a request that has one. -/
def timeout? : Message → Option Duration
  | .request r => r.queryTimeout
  | _ => none

variable {m : Message}

theorem carried_of_exact (h : ∀ part ∈ m.parts, part.Exact ∧ part.Permitted allowed) :
    m.Carried where
  names typeName parts hmem kind hname := by
    have hresolve : allowed.resolve typeName = .ok none := (h _ hmem).2
    rw [hname, AllowList.resolve, Kind.ofName?_eq_some_iff.mpr rfl] at hresolve
    cases hresolve
  lengths reference length hmem hlength :=
    sentLength_eq_self_iff.mp (h _ hmem).1 length hlength
  timeouts request timeout hmem htimeout := by
    cases request
    exact sentTimeout_eq_self_iff.mp (h _ hmem).1 timeout htimeout

theorem Carried.exact (hm : m.Carried) (hbound : ∀ lob, .lob lob ∈ m.parts → lob.content.isSome) :
    ∀ part ∈ m.parts, part.Exact := by
  intro part hpart
  cases part with
  | lob lob => exact hbound lob hpart
  | reference reference => exact sentLength_eq_self_iff.mpr (hm.lengths reference · hpart)
  | message inner =>
    cases inner with
    | request request =>
      have htimeout := sentTimeout_eq_self_iff.mpr (hm.timeouts request · hpart)
      cases request
      exact htimeout
    | _ => trivial
  | _ => trivial

end Message

/-! ## Frames -/

/-- Contents one behind another are not read as others. -/
theorem Appendix.eq_of_holds_write {contents contents' : List Bytes}
    (h : Holds (contents.flatMap write) contents') (hlength : contents'.length = contents.length) :
    contents' = contents := by
  -- any limit will do that both stay within
  let max := (contents'.map List.length).sum + (contents.map List.length).sum
  have hread : ∃ used pos, readAll max contents.length [] ⟨0, ⟨contents.flatMap write, 0⟩⟩ =
      (.ok contents', ⟨used, ⟨[], pos⟩⟩) :=
    (readAll_eq_ok_iff (Nat.zero_le max)).mpr
      ⟨_, contents', (List.append_nil _).symm, h, rfl, hlength, by omega⟩
  have hwrite : readAll max contents.length [] ⟨0, ⟨contents.flatMap write ++ [], 0⟩⟩ =
      (.ok contents, _) := readAll_write fun _ => by omega
  obtain ⟨used, pos, hread⟩ := hread
  rw [List.append_nil, hread] at hwrite
  exact Except.ok.inj (congrArg Prod.fst hwrite)

namespace Frame

variable {m m' : Message} {max : Nat} {frame : Bytes}

theorem eq_of_prefix {content content' rest rest' : Bytes} (hlt : content.length < 256 ^ 4)
    (hlt' : content'.length < 256 ^ 4)
    (h : Bytes.ofNat 4 content.length ++ content ++ rest =
      Bytes.ofNat 4 content'.length ++ content' ++ rest') : content = content' ∧ rest = rest' := by
  rw [List.append_assoc, List.append_assoc] at h
  obtain ⟨hcount, hcontent⟩ := List.append_inj h (by simp only [Bytes.length_ofNat])
  have hlength : content.length = content'.length := by
    rw [← Bytes.toNat_ofNat hlt, hcount, Bytes.toNat_ofNat hlt']
  exact List.append_inj hcontent hlength

/-- What an encoder makes of a message is not mistaken for the payload of another. -/
theorem encodePayload_orDead {options : Options} (hlimit : options.maxSize < 2 ^ 32)
    (hnames : ∀ part ∈ m.parts, part.Unregistered) {payload : Bytes} {contents : List Bytes}
    (h : encodePayload options m = .ok (payload, contents)) :
    contents = m.contents ∧ payload.length ≤ options.maxSize ∧
      ∃ body kinds, payload = [version] ++ body ∧ kinds.length = contents.length ∧
        orDead (Format.value allowed) (.message m.asSent) 0 body kinds := by
  unfold encodePayload at h
  dsimp only at h
  split at h
  · cases h
  · next encoder hbody =>
    have hmessage : Emits options.maxSize _ (orDead (Format.value allowed) _) _ :=
      (Emits.hereditary_orDead hlimit).of_message m hnames
    obtain ⟨bytes, kinds, hf, hkinds, hfits, rfl⟩ :=
      (Emits.sequential.field (Emits.sequential.uint8 version) (Encode.Sequential.last hmessage))
        #[] #[] _ _ (Nat.zero_le _) hbody
    cases h
    obtain ⟨body, rfl, hmeant⟩ := seq_exactly.mp hf
    rw [fields_singleton] at hmeant
    simp only [Writer.bytes, Array.empty_append]
    exact ⟨trivial, by simpa using hfits, body, kinds, rfl, hkinds, hmeant⟩

/-- Where such a payload is accepted, it says what was meant. -/
theorem eq_of_orDead {body : Bytes} {kinds kinds' : List LobKind}
    (hbody : orDead (Format.value allowed) (.message m) 0 body kinds)
    (h : decodePayload allowed ([version] ++ body) = .ok (m', kinds')) :
    m' = m ∧ kinds' = kinds := by
  obtain ⟨-, hpayload⟩ := decodePayload_eq_ok_iff.mp h
  obtain ⟨body', hbytes, hmessage⟩ := seq_exactly.mp hpayload
  rw [fields_singleton, ← value_message] at hmessage
  obtain rfl := List.append_cancel_left hbytes
  rcases hbody with hmeant | hdead
  · obtain ⟨hmessages, -, rfl, -⟩ :=
      unambiguous_value _ _ _ _ _ _ _ [] [] hmessage hmeant rfl
    exact ⟨Value.message.inj hmessages, rfl⟩
  · exact absurd rfl (hdead _ _ _ [] [] hmessage)

/-- A frame that is accepted gives the message as its body says it, with the contents bound, unless
some name in it passes for that of a kind; and it stays within the limits for both. -/
theorem of_decode_encode {options : Options} (hlimit : options.maxSize < 2 ^ 32)
    (hnames : ∀ part ∈ m.parts, part.Unregistered) (hencode : encode options m = .ok frame)
    (hdecode : decode allowed max frame = .ok m') : m' = m.asSent.bind m.contents ∧
      m.height ≤ Decoder.maxDepth ∧ (m.contents.map List.length).sum ≤ max := by
  rw [decode_eq_ok_iff_first, first_eq_ok_iff] at hdecode
  obtain ⟨content, body, kinds, taken, contents, hframe, -, hlt, hpayload, hholds, hcount, htotal,
    rfl⟩ := hdecode
  unfold encode at hencode
  split at hencode
  · cases hencode
  next payload contents' hwritten =>
  cases hencode
  obtain ⟨rfl, hfits, meant, kinds', rfl, hkinds, hmeant⟩ :=
    encodePayload_orDead hlimit hnames hwritten
  obtain ⟨rfl, hrest⟩ := eq_of_prefix (lt_of_le_of_lt hfits hlimit) hlt hframe
  obtain ⟨rfl, rfl⟩ := eq_of_orDead hmeant hpayload
  rw [List.append_nil] at hrest
  obtain rfl := Appendix.eq_of_holds_write (hrest ▸ hholds) (hcount.trans hkinds)
  exact ⟨rfl, m.height_asSent ▸ (decodePayload_eq_ok_iff.mp hpayload).1, htotal⟩

theorem eq_bind_asSent {options : Options} (hlimit : options.maxSize < 2 ^ 32)
    (hnames : ∀ part ∈ m.parts, part.Unregistered) (hencode : encode options m = .ok frame)
    (hdecode : decode allowed max frame = .ok m') : m' = m.asSent.bind m.contents :=
  (of_decode_encode hlimit hnames hencode hdecode).1

/-- Where a frame is accepted, the message has arrived exactly if the wire says it in full. Otherwise
it has changed; and, names aside, only in the lengths and the timeouts that the wire cuts short. -/
theorem arrives_iff_carried {tagsByCode : Bool} (hlimit : limit < 2 ^ 32)
    (hbound : ∀ lob, .lob lob ∈ m.parts → lob.content.isSome)
    (hencode : encode ⟨tagsByCode, limit⟩ m = .ok frame)
    (hdecode : decode allowed max frame = .ok m') :
    ((∀ typeName parts, .named typeName parts ∈ m.parts → ∀ kind : Kind, typeName ≠ kind.name) →
      m' = m.asSent.bind m.contents) ∧ (m' = m ↔ m.Carried) := by
  have harrival (hnames : ∀ typeName parts, .named typeName parts ∈ m.parts →
      ∀ kind : Kind, typeName ≠ kind.name) : m' = m.asSent.bind m.contents := by
    refine eq_bind_asSent hlimit (fun part hpart => ?_) hencode hdecode
    cases part with
    | named typeName parts => exact hnames typeName parts hpart
    | _ => trivial
  refine ⟨harrival, ?_, fun hcarried => ?_⟩
  -- what a frame gives is always said in full, so it is the message only if that is
  · rintro rfl
    exact Message.carried_of_exact (parts_of_decode hdecode)
  · rw [harrival hcarried.names, Message.bind_asSent (hcarried.exact hbound)]

theorem arrives_iff_carried_sampleBatch : sampleBatch.Carried ∧ ∃ frame m',
    encode ⟨false, 4096⟩ sampleBatch = .ok frame ∧
    decode (AllowList.empty.allow "a.B") 4096 frame = .ok m' ∧ m' = sampleBatch := by
  have hcarried : sampleBatch.Carried := by
    constructor
    · intro typeName parts hmem kind
      simp [sampleBatch, Message.parts, Value.parts, partsOfRows, partsOfEach] at hmem
      rw [hmem.1]
      cases kind <;> decide
    · intro reference length hmem hlength
      simp [sampleBatch, Message.parts, Value.parts, partsOfRows, partsOfEach] at hmem
      rw [hmem] at hlength
      cases hlength
      decide
    · intro request timeout hmem htimeout
      simp [sampleBatch, Message.parts, Value.parts, partsOfRows, partsOfEach] at hmem
      rw [hmem] at htimeout
      cases htimeout
      exact ⟨5, by decide, by decide, rfl⟩
  have hkind : ((encode ⟨false, 4096⟩ sampleBatch).bind
      (decode (AllowList.empty.allow "a.B") 4096)).toOption.map Message.kind = some .results := by
    decide +kernel
  obtain ⟨m', harrives, -⟩ := Operation.exists_of_toOption_map hkind
  obtain ⟨frame, hencode, hdecode⟩ := Operation.exists_of_except_bind harrives
  refine ⟨hcarried, frame, m', hencode, hdecode, ?_⟩
  refine (arrives_iff_carried (by decide) ?_ hencode hdecode).2.mpr hcarried
  intro lob hmem
  simp [sampleBatch, Message.parts, Value.parts, partsOfRows, partsOfEach] at hmem
  rcases hmem with rfl | rfl <;> rfl

/-- A request with a timeout of half a millisecond, a length past the sign, and the name of a kind in
place of a type. -/
def hurriedRequest : Message :=
  .request ⟨1, "", [.reference ⟨"r", .blob, some 0x8000000000000000⟩,
    .named Kind.list.name [.long 7]], 1, .forwardOnly, 0, some ⟨500000⟩⟩

/-- It is accepted, and has no timeout where it arrives. -/
theorem hurriedRequest_changed : ∃ frame m', encode ⟨true, 4096⟩ hurriedRequest = .ok frame ∧
    decode .empty 4096 frame = .ok m' ∧ m'.timeout? = none ∧ m' ≠ hurriedRequest := by
  have hnone : ((encode ⟨true, 4096⟩ hurriedRequest).bind (decode .empty 4096)).toOption.map
      Message.timeout? = some none := by
    decide +kernel
  obtain ⟨m', harrives, htimeout⟩ := Operation.exists_of_toOption_map hnone
  obtain ⟨frame, hencode, hdecode⟩ := Operation.exists_of_except_bind harrives
  refine ⟨frame, m', hencode, hdecode, htimeout, ?_⟩
  rintro rfl
  cases htimeout

end Frame

end QueryClient

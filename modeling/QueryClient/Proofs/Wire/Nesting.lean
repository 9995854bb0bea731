import QueryClient.Proofs.Wire.Decoding

/-!
# Nested values

A decoder with some levels left reads exactly the values that the grammar spells and that have at
most so many levels.
-/

namespace QueryClient.Reads

open Format Operation

variable {α : Type} {allowed : AllowList} {levels : Nat} {value : Decode Value}

theorem exception (levels : Nat) : Reads allowed (Decoder.exception levels) fun e =>
    (Format.exception allowed e).given (0 < levels) := by
  rw [Decoder.exception]
  refine congr (f := fun e => (fields [Format.tag allowed (.known .exception),
    Format.exceptionBody e]).given (0 < levels)) ?_ ?_
  · apply tag.field fun _ => Tag.known .exception
    intro met
    split_ifs with hmet
    · apply (exceptionBody.nested levels).congr
      intro e
      simp [hmet]
    · exact throw _ fun e h => hmet h.2
  · intro e
    rw [fields_cons, fields_singleton]
    rfl

theorem optionalException (levels : Nat) : Reads allowed (Decoder.optionalException levels) fun o =>
    (Format.optionalException allowed o).given (o.isSome → 0 < levels) := by
  rw [Decoder.optionalException]
  refine congr (f := fun o : Option ServerException => (fields (Format.tag allowed
    (.known (o.elim .null fun _ => .exception)) ::
      o.elim [] fun e => [Format.exceptionBody e])).given (o.isSome → 0 < levels)) ?_ ?_
  · apply tag.field fun o : Option ServerException => Tag.known (o.elim .null fun _ => .exception)
    intro met
    split_ifs with hnull hexception
    · refine congr (f := fun o => (fields []).given (o = none)) (done fun o => Iff.rfl) ?_
      rintro (_ | e)
      · exact given_congr (by simp [hnull]) fun _ => rfl
      · exact given_congr (by simp [hnull]) fun h => absurd (hnull.symm.trans h.2) (by simp)
    · apply (exceptionBody.nested levels).map some
      · intro e hlevels
        exact ⟨⟨fun _ => hlevels, hexception⟩, fields_singleton _⟩
      · rintro (_ | e) ⟨hlevels, hmet⟩
        · exact absurd hmet hnull
        · exact ⟨e, hlevels rfl, rfl⟩
    · apply throw
      rintro (_ | e) ⟨-, hmet⟩
      · exact hnull hmet
      · exact hexception hmet
  · rintro (_ | e)
    · rw [Option.elim_none, Option.elim_none, fields_singleton]
      rfl
    · rw [Option.elim_some, Option.elim_some, fields_cons, fields_singleton]
      rfl

section Bodies

variable (hv : Reads allowed value fun v => (Format.value allowed v).given (v.height ≤ levels))
include hv

theorem countedValues : Reads allowed (Decoder.counted value) fun items =>
    (Format.counted (items.map (Format.value allowed))).given (∀ v ∈ items, v.height ≤ levels) := by
  apply (counted hv fun v => (solid_value allowed v).given _).congr
  intro items
  rw [counted_map_given]

theorem invocationBody : Reads allowed (Decoder.invocationBody value) fun i =>
    (Format.messageBody allowed (.invocation i)).given
      ((Message.invocation i).height ≤ levels + 1) := by
  rw [Decoder.invocationBody]
  refine congr (f := fun i => (fields [Format.uint64 i.key, byte i.service.code, shortText i.method,
    (Format.counted (i.args.map (Format.value allowed))).given
      (∀ v ∈ i.args, v.height ≤ levels)]).given True) ?_ ?_
  · apply uint64.field Invocation.key
    intro key
    apply (coded Service.ofCode_eq_ok_iff).field Invocation.service
    intro service
    apply shortString.field Invocation.method
    intro method
    apply (countedValues hv).field Invocation.args
    intro args
    apply done
    rintro ⟨key', service', method', args'⟩
    simp [eq_comm, and_assoc]
  · rintro ⟨key, service, method, args⟩
    rw [Format.messageBody, Message.height, each_eq, given_true]
    simp only [fields_cons, given_seq, seq_given, Nat.add_le_add_iff_right, heightOfEach_le_iff]

theorem replyBody : Reads allowed (Decoder.replyBody levels value) fun r =>
    (Format.messageBody allowed (.reply r)).given ((Message.reply r).height ≤ levels + 1) := by
  rw [Decoder.replyBody]
  refine congr (f := fun r => (fields [Format.uint64 r.key, Format.boolean r.outcome.isOk.not,
    match r.outcome with
    | .ok v => Format.value allowed v
    | .error e => Format.exception allowed e]).given ((Message.reply r).height ≤ levels + 1)) ?_ ?_
  · apply uint64.field Reply.key
    intro key
    apply boolean.field fun r : Reply => r.outcome.isOk.not
    intro failed
    cases failed with
    | true =>
      apply (exception levels).map fun e => (⟨key, .error e⟩ : Reply)
      · intro e hlevels
        exact ⟨⟨⟨Nat.succ_le_succ hlevels, rfl⟩, rfl⟩, fields_singleton _⟩
      · rintro ⟨key', e | v⟩ ⟨⟨hheight, rfl⟩, hfailed⟩
        · exact ⟨e, Nat.le_of_succ_le_succ hheight, rfl⟩
        · cases hfailed
    | false =>
      apply hv.map fun v => (⟨key, .ok v⟩ : Reply)
      · intro v hheight
        exact ⟨⟨⟨Nat.succ_le_succ hheight, rfl⟩, rfl⟩, fields_singleton _⟩
      · rintro ⟨key', e | v⟩ ⟨⟨hheight, rfl⟩, hfailed⟩
        · cases hfailed
        · exact ⟨v, Nat.le_of_succ_le_succ hheight, rfl⟩
  · rintro ⟨key, e | v⟩
    · rw [Format.messageBody]
      rfl
    · rw [Format.messageBody]
      rfl

theorem requestBody : Reads allowed (Decoder.requestBody value) fun r =>
    (Format.messageBody allowed (.request r)).given ((Message.request r).height ≤ levels + 1) := by
  rw [Decoder.requestBody]
  refine congr (f := fun r => (fields [Format.int64 r.executionId, text r.sql,
    (Format.counted (r.parameters.map (Format.value allowed))).given
      (∀ v ∈ r.parameters, v.height ≤ levels), Format.uint32 r.fetchSize, byte r.cursorType.code,
    Format.uint32 r.rowLimit, timeout r.queryTimeout]).given True) ?_ ?_
  · apply int64.field Request.executionId
    intro executionId
    apply string.field Request.sql
    intro sql
    apply (countedValues hv).field Request.parameters
    intro parameters
    apply uint32.field Request.fetchSize
    intro fetchSize
    apply (coded CursorType.ofCode_eq_ok_iff).field Request.cursorType
    intro cursorType
    apply uint32.field Request.rowLimit
    intro rowLimit
    apply uint64.part (fun n (r : Request) =>
      r.queryTimeout = if n.toNat = 0 then none else some (Duration.milliseconds n.toNat))
    intro n
    apply done
    rintro ⟨executionId', sql', parameters', fetchSize', cursorType', rowLimit', queryTimeout'⟩
    simp [eq_comm, and_assoc]
  · rintro ⟨executionId, sql, parameters, fetchSize, cursorType, rowLimit, queryTimeout⟩
    rw [Format.messageBody, Message.height, each_eq, given_true]
    simp only [fields_cons, given_seq, seq_given, Nat.add_le_add_iff_right, heightOfEach_le_iff]

theorem resultsBody : Reads allowed (Decoder.resultsBody levels value) fun r =>
    (Format.messageBody allowed (.results r)).given ((Message.results r).height ≤ levels + 1) := by
  rw [Decoder.resultsBody]
  simp only [Decode.liftM_times]
  refine congr (f := fun r => (fields [Format.int64 r.firstRow, Format.int64 r.lastRow,
    Format.int64 r.finalRow, Format.counted (r.columns.map Format.column),
    Format.counted (r.rows.map fun row => (Format.counted (row.map (Format.value allowed))).given
      (∀ v ∈ row, v.height ≤ levels)), Format.optional Format.int64 r.updateCount,
    Format.counted (r.warnings.map text), (Format.optionalException allowed r.exception).given
      (r.exception.isSome → 0 < levels)]).given True) ?_ ?_
  · apply int64.field Results.firstRow
    intro firstRow
    apply int64.field Results.lastRow
    intro lastRow
    apply int64.field Results.finalRow
    intro finalRow
    apply countedField Results.columns (column.times_nil ·)
    intro columns
    apply countedField Results.rows ((countedValues hv).times_nil ·)
    intro rows
    apply (optional int64).field Results.updateCount
    intro updateCount
    apply countedField Results.warnings (string.times_nil ·)
    intro warnings
    apply (optionalException levels).field Results.exception
    intro failure
    apply done
    rintro ⟨firstRow', lastRow', finalRow', columns', rows', updateCount', warnings', failure'⟩
    simp [eq_comm, and_assoc]
  · rintro ⟨firstRow, lastRow, finalRow, columns, rows, updateCount, warnings, failure⟩
    rw [Format.messageBody, Message.height, rows_eq, given_true]
    simp only [counted_map_given, fields_cons, given_seq, seq_given, given_given]
    refine given_congr ?_ fun _ => rfl
    rw [Nat.add_le_add_iff_right, Nat.max_le, heightOfRows_le_iff, and_comm]
    cases failure <;> simp [Nat.one_le_iff_ne_zero, Nat.pos_iff_ne_zero]

omit hv in
/-- A message of one kind, from its body. -/
theorem ofKind {read : Decode α} {φ : α → Message} {kind : Kind}
    (hread : Reads allowed read fun a =>
      (Format.messageBody allowed (φ a)).given ((φ a).height ≤ levels + 1))
    (hkind : ∀ a, (φ a).kind = kind) (hall : ∀ m : Message, m.kind = kind → ∃ a, m = φ a) :
    Reads allowed (read >>= fun a => Pure.pure (φ a)) fun m =>
      (Format.messageBody allowed m).given (m.kind = kind ∧ m.height ≤ levels + 1) := by
  apply hread.map φ
  · intro a hheight
    exact ⟨⟨hkind a, hheight⟩, rfl⟩
  · intro m h
    obtain ⟨a, rfl⟩ := hall m h.1
    exact ⟨a, h.2, rfl⟩

omit hv in
/-- A message without values, from its body. -/
theorem ofPlain {read : Decode α} {f : α → Format} {φ : α → Message} {kind : Kind}
    (hread : Reads allowed read f) (hf : ∀ a, Format.messageBody allowed (φ a) = f a)
    (hheight : ∀ a, (φ a).height = 1) (hkind : ∀ a, (φ a).kind = kind)
    (hall : ∀ m : Message, m.kind = kind → ∃ a, m = φ a) :
    Reads allowed (read >>= fun a => Pure.pure (φ a)) fun m =>
      (Format.messageBody allowed m).given (m.kind = kind ∧ m.height ≤ levels + 1) := by
  refine ofKind (hread.congr fun a => ?_) hkind hall
  rw [hf, hheight, given_of (by omega)]

theorem messageBody (kind : Kind) : Reads allowed (Decoder.messageBody levels value kind) fun m =>
    (Format.messageBody allowed m).given (m.kind = kind ∧ m.height ≤ levels + 1) := by
  cases kind
  case handshake =>
    exact ofPlain handshakeBody (fun _ => rfl) (fun _ => rfl) (fun _ => rfl) fun m => m.of_kind
  case invocation =>
    exact ofKind (invocationBody hv) (fun _ => rfl) fun m => m.of_kind
  case reply =>
    exact ofKind (replyBody hv) (fun _ => rfl) fun m => m.of_kind
  case request =>
    exact ofKind (requestBody hv) (fun _ => rfl) fun m => m.of_kind
  case results =>
    exact ofKind (resultsBody hv) (fun _ => rfl) fun m => m.of_kind
  case chunk =>
    exact ofPlain chunkBody (fun _ => rfl) (fun _ => rfl) (fun _ => rfl) fun m => m.of_kind
  case exception =>
    exact ofPlain exceptionBody (fun _ => rfl) (fun _ => rfl) (fun _ => rfl) fun m => m.of_kind
  case logonRequest =>
    exact ofPlain logonRequestBody (fun _ => rfl) (fun _ => rfl) (fun _ => rfl) fun m => m.of_kind
  case logonResult =>
    exact ofPlain logonResultBody (fun _ => rfl) (fun _ => rfl) (fun _ => rfl) fun m => m.of_kind
  all_goals exact throw _ fun m h => m.of_kind h.1

omit hv in
/-- A value with one tag, from its body. -/
theorem ofTag {read : Decode α} {f : α → Format} {φ : α → Value} {kind : Kind}
    (hread : Reads allowed read f) (hf : ∀ a, Format.body allowed (φ a) = f a)
    (hheight : ∀ a, (φ a).height = 1) (htag : ∀ a, (φ a).tag = .known kind)
    (hall : ∀ v : Value, v.tag = .known kind → ∃ a, v = φ a) :
    Reads allowed (read >>= fun a => Pure.pure (φ a)) fun v =>
      (Format.body allowed v).given (v.tag = .known kind ∧ v.height ≤ levels + 1) := by
  apply (hread.congr fun a => (given_true _).symm).map φ
  · intro a _
    exact ⟨⟨htag a, by rw [hheight]; omega⟩, hf a⟩
  · rintro v ⟨hv, -⟩
    obtain ⟨a, rfl⟩ := hall v hv
    exact ⟨a, trivial, rfl⟩

/-- The body of a value that is a message. -/
theorem ofMessage (kind : Kind) :
    Reads allowed
      (Decoder.messageBody levels value kind >>= fun m => Pure.pure (.message m)) fun v =>
      (Format.body allowed v).given
        ((∃ m : Message, v = .message m ∧ m.kind = kind) ∧ v.height ≤ levels + 1) := by
  apply (messageBody hv kind).map Value.message
  · rintro m ⟨hkind, hheight⟩
    exact ⟨⟨⟨m, rfl, hkind⟩, hheight⟩, by rw [Format.body]⟩
  · rintro v ⟨⟨m, rfl, hkind⟩, hheight⟩
    exact ⟨m, ⟨hkind, hheight⟩, rfl⟩

theorem valueBody (kind : Kind) : Reads allowed (Decoder.valueBody levels value kind) fun v =>
    (Format.body allowed v).given (v.tag = .known kind ∧ v.height ≤ levels + 1) := by
  cases kind
  case null =>
    refine congr (f := fun v => (fields []).given (v = .null)) (done fun v => Iff.rfl) fun v => ?_
    refine given_congr ⟨?_, fun h => v.of_tag h.1⟩ fun h => ?_
    · rintro rfl
      exact ⟨rfl, Nat.le_add_left 1 levels⟩
    · obtain rfl : v = .null := v.of_tag h.1
      rfl
  case boolean =>
    exact ofTag boolean (fun _ => rfl) (fun _ => rfl) (fun _ => rfl) fun v => v.of_tag
  case integer =>
    exact ofTag int32 (fun _ => rfl) (fun _ => rfl) (fun _ => rfl) fun v => v.of_tag
  case long =>
    exact ofTag int64 (fun _ => rfl) (fun _ => rfl) (fun _ => rfl) fun v => v.of_tag
  case double =>
    exact ofTag double (fun _ => rfl) (fun _ => rfl) (fun _ => rfl) fun v => v.of_tag
  case string =>
    exact ofTag string (fun _ => rfl) (fun _ => rfl) (fun _ => rfl) fun v => v.of_tag
  case binary =>
    exact ofTag bytes (fun _ => rfl) (fun _ => rfl) (fun _ => rfl) fun v => v.of_tag
  case lobReference =>
    exact ofTag reference (fun _ => rfl) (fun _ => rfl) (fun _ => rfl) fun v => v.of_tag
  case list =>
    apply (countedValues hv).map Value.list
    · intro items hheight
      rw [Format.body, each_eq, Value.height, Nat.add_le_add_iff_right, heightOfEach_le_iff]
      exact ⟨⟨rfl, hheight⟩, rfl⟩
    · intro v h
      obtain ⟨items, rfl⟩ : ∃ items, v = .list items := v.of_tag h.1
      have hheight := h.2
      rw [Value.height, Nat.add_le_add_iff_right, heightOfEach_le_iff] at hheight
      exact ⟨items, hheight, rfl⟩
  case streamReference =>
    have hlob : Reads allowed Decoder.lob fun l => Format.body allowed (.lob l) :=
      lob.congr fun l => by cases l; rw [Format.body]
    exact ofTag hlob (fun _ => rfl) (fun _ => rfl) (fun _ => rfl) fun v => v.of_tag
  all_goals
    refine (ofMessage hv _).congr fun v => given_congr (and_congr_left' ?_) fun _ => rfl
    cases v <;> simp [Value.tag]

end Bodies

theorem valueWithin (levels : Nat) : Reads allowed (Decoder.valueWithin levels) fun v =>
    (Format.value allowed v).given (v.height ≤ levels) := by
  induction levels with
  | zero =>
    rw [Decoder.valueWithin]
    refine congr (f := fun v => (fields [Format.tag allowed v.tag,
      Format.body allowed v]).given (v.height ≤ 0)) ?_ fun v => ?_
    · apply tag.field Value.tag
      intro met
      apply throw
      rintro v ⟨hheight, -⟩
      exact absurd v.height_pos (by omega)
    · rw [fields_cons, fields_singleton]
      rfl
  | succ levels ih =>
    rw [Decoder.valueWithin]
    refine congr (f := fun v => (fields [Format.tag allowed v.tag,
      Format.body allowed v]).given (v.height ≤ levels + 1)) ?_ fun v => ?_
    · apply tag.field Value.tag
      rintro (kind | name)
      · apply (valueBody ih kind).deeper.congr
        intro v
        rw [fields_singleton, and_comm, eq_comm (a := v.tag)]
      · apply deeper
        apply (countedValues ih).map fun parts => Value.named name parts
        · intro parts hheight
          rw [fields_singleton, Format.body, each_eq, Value.height, Nat.add_le_add_iff_right,
            heightOfEach_le_iff]
          exact ⟨⟨hheight, rfl⟩, rfl⟩
        · rintro v ⟨hheight, htag⟩
          cases v with
          | named typeName parts =>
            cases htag
            rw [Value.height, Nat.add_le_add_iff_right, heightOfEach_le_iff] at hheight
            exact ⟨parts, hheight, rfl⟩
          | _ => cases htag
    · rw [fields_cons, fields_singleton]
      rfl

end QueryClient.Reads

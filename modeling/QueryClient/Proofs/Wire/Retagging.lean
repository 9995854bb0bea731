import Mathlib.Data.List.Forall2
import QueryClient.Proofs.Wire.Filling
import QueryClient.Proofs.Wire.Reencoding

/-!
# Tags are written either way

A payload is put together from bytes that have to stand there and from tags of registered kinds. Its
tags and the objects it announces are those of its message, in order, however it is written; and
each of the tags, by itself, may be exchanged for its other form.
-/

namespace QueryClient

open Format

/-- What a payload is put together from. -/
inductive Token where
  | fixed (bytes : Bytes)
  | tag (kind : Kind)

namespace Token

def kind? : Token → Option Kind
  | .fixed _ => none
  | .tag kind => some kind

/-- How a token is written: fixed bytes as they are, and a tag as its code or by its name. -/
inductive Writes : Token → Bytes → Prop
  | fixed (bytes : Bytes) : Writes (.fixed bytes) bytes
  | code (kind : Kind) : Writes (.tag kind) [kind.code]
  | name (kind : Kind) : Writes (.tag kind)
      ([Kind.byName] ++ Bytes.ofNat 2 (Utf8.size kind.name) ++ Utf8.encode kind.name)

/-- How tokens are written one behind another, each in either way. -/
def WriteAll (tokens : List Token) (bytes : Bytes) : Prop :=
  ∃ parts, List.Forall₂ Writes tokens parts ∧ bytes = parts.flatten

theorem writeAll_append {first second : List Token} {bytes : Bytes} :
    WriteAll (first ++ second) bytes ↔
      ∃ front back, WriteAll first front ∧ WriteAll second back ∧ bytes = front ++ back := by
  constructor
  · rintro ⟨parts, hparts, rfl⟩
    have hfront := List.forall₂_take first.length hparts
    have hback := List.forall₂_drop first.length hparts
    rw [List.take_left] at hfront
    rw [List.drop_left] at hback
    refine ⟨_, _, ⟨_, hfront, rfl⟩, ⟨_, hback, rfl⟩, ?_⟩
    rw [← List.flatten_append, List.take_append_drop]
  · rintro ⟨_, _, ⟨front, hfront, rfl⟩, ⟨back, hback, rfl⟩, rfl⟩
    exact ⟨front ++ back, List.rel_append hfront hback, List.flatten_append.symm⟩

theorem writeAll_singleton {token : Token} {bytes : Bytes} :
    WriteAll [token] bytes ↔ token.Writes bytes := by
  constructor
  · rintro ⟨_, _ | ⟨htoken, hnil⟩, rfl⟩
    cases hnil
    simpa using htoken
  · intro htoken
    exact ⟨[bytes], .cons htoken .nil, by simp⟩

end Token

open Token

/-! ## Tags and announcements of a message -/

/-- The registered kind that a tag stands for. -/
def Tag.kinds : Tag → List Kind
  | .known kind => [kind]
  | .foreign _ => []

mutual

/-- The registered tags that stand in a value behind its own, in order. -/
def Value.tagsInside : Value → List Kind
  | .list items => tagsOfEach items
  | .named _ parts => tagsOfEach parts
  | .message m => m.tagsInside
  | _ => []

def tagsOfEach : List Value → List Kind
  | [] => []
  | v :: rest => v.tag.kinds ++ v.tagsInside ++ tagsOfEach rest

def tagsOfRows : List Row → List Kind
  | [] => []
  | row :: rest => tagsOfEach row ++ tagsOfRows rest

/-- The registered tags that stand in a message behind its own, in order. An absent exception is a
null. -/
def Message.tagsInside : Message → List Kind
  | .invocation ⟨_, _, _, args⟩ => tagsOfEach args
  | .reply ⟨_, .ok v⟩ => v.tag.kinds ++ v.tagsInside
  | .reply ⟨_, .error _⟩ => [.exception]
  | .request ⟨_, _, parameters, _, _, _, _⟩ => tagsOfEach parameters
  | .results ⟨_, _, _, _, rows, _, _, exception⟩ =>
    tagsOfRows rows ++ [if exception.isSome then .exception else .null]
  | _ => []

end

def Value.tags (v : Value) : List Kind :=
  v.tag.kinds ++ v.tagsInside

def Message.tags (m : Message) : List Kind :=
  m.kind :: m.tagsInside

/-- The kind of a value that is a large object. -/
def Value.lobKind? : Value → Option LobKind
  | .lob l => some l.kind
  | _ => none

/-- The kinds of the large objects in a value, in order. -/
def Value.lobKinds (v : Value) : List LobKind :=
  v.parts.filterMap Value.lobKind?

/-- The kinds of the large objects in a message, in order. -/
def Message.lobKinds (m : Message) : List LobKind :=
  m.parts.filterMap Value.lobKind?

theorem tagsOfEach_eq (items : List Value) : tagsOfEach items = items.flatMap Value.tags := by
  induction items with
  | nil => rfl
  | cons v rest ih =>
    rw [tagsOfEach, ih]
    rfl

theorem tagsOfRows_eq (rows : List Row) :
    tagsOfRows rows = rows.flatMap fun row => row.flatMap Value.tags := by
  induction rows with
  | nil => rfl
  | cons row rest ih => rw [tagsOfRows, ih, tagsOfEach_eq, List.flatMap_cons]

theorem lobKinds_partsOfEach (items : List Value) :
    (partsOfEach items).filterMap Value.lobKind? = items.flatMap Value.lobKinds := by
  rw [partsOfEach_eq, List.filterMap_flatMap]
  rfl

theorem lobKinds_partsOfRows (rows : List Row) :
    (partsOfRows rows).filterMap Value.lobKind? =
      rows.flatMap fun row => row.flatMap Value.lobKinds := by
  induction rows with
  | nil => rfl
  | cons row rest ih =>
    rw [partsOfRows, List.filterMap_append, ih, lobKinds_partsOfEach, List.flatMap_cons]

/-! ## Formats laid out -/

/-- A format in which tags and announcements are always the same, and in which tags may be
exchanged. -/
def Format.Laid (f : Format) (tags : List Kind) (objects : List LobKind) : Prop :=
  ∀ announced bytes kinds, f announced bytes kinds → kinds = objects ∧
    ∃ tokens, tokens.filterMap Token.kind? = tags ∧ WriteAll tokens bytes ∧
      ∀ bytes', WriteAll tokens bytes' → f announced bytes' kinds

namespace Format.Laid

variable {α : Type} {allowed : AllowList} {f g : Format} {tags tags' : List Kind}
  {objects objects' : List LobKind} {p : Prop}

/-- Bytes without tags are written in one way. -/
theorem untagged (h : ∀ announced bytes kinds, f announced bytes kinds → kinds = objects) :
    Laid f [] objects := by
  intro announced bytes kinds hf
  refine ⟨h announced bytes kinds hf, [.fixed bytes], rfl,
    writeAll_singleton.mpr (.fixed bytes), fun bytes' h' => ?_⟩
  cases writeAll_singleton.mp h'
  exact hf

theorem silent (h : f.Silent) : Laid f [] [] :=
  untagged h

theorem given (h : Laid f tags objects) : Laid (f.given p) tags objects := by
  rintro announced bytes kinds ⟨hp, hf⟩
  obtain ⟨hkinds, tokens, htags, hbytes, hall⟩ := h announced bytes kinds hf
  exact ⟨hkinds, tokens, htags, hbytes, fun bytes' h' => ⟨hp, hall bytes' h'⟩⟩

theorem seq (hf : Laid f tags objects) (hg : Laid g tags' objects') :
    Laid (Format.seq f g) (tags ++ tags') (objects ++ objects') := by
  rintro announced _ _ ⟨first, kinds₁, second, kinds₂, hfirst, hsecond, rfl, rfl⟩
  obtain ⟨rfl, tokens₁, rfl, hbytes₁, hall₁⟩ := hf _ _ _ hfirst
  obtain ⟨rfl, tokens₂, rfl, hbytes₂, hall₂⟩ := hg _ _ _ hsecond
  refine ⟨rfl, tokens₁ ++ tokens₂, List.filterMap_append,
    writeAll_append.mpr ⟨_, _, hbytes₁, hbytes₂, rfl⟩, fun bytes' h' => ?_⟩
  obtain ⟨front, back, hfront, hback, rfl⟩ := writeAll_append.mp h'
  exact ⟨front, _, back, _, hall₁ front hfront, hall₂ back hback, rfl, rfl⟩

/-- What stands behind bytes without tags and announcements. -/
theorem behind (hf : f.Silent) (hg : Laid g tags objects) : Laid (Format.seq f g) tags objects :=
  (silent hf).seq hg

/-- What stands before bytes without tags and announcements. -/
theorem before (hf : Laid f tags objects) (hg : g.Silent) :
    Laid (Format.seq f g) tags objects := by
  have hseq := hf.seq (silent hg)
  rwa [List.append_nil, List.append_nil] at hseq

theorem last (hf : Laid f tags objects) : Laid (fields [f]) tags objects := by
  rwa [fields_singleton]

theorem all {f : α → Format} {tags : α → List Kind} {objects : α → List LobKind} {items : List α}
    (h : ∀ a ∈ items, Laid (f a) (tags a) (objects a)) :
    Laid (fields (items.map f)) (items.flatMap tags) (items.flatMap objects) := by
  induction items with
  | nil => exact silent (silent_exactly [])
  | cons a items ih =>
    rw [List.forall_mem_cons] at h
    exact h.1.seq (ih h.2)

theorem counted {items : List Format} (h : Laid (fields items) tags objects) :
    Laid (Format.counted items) tags objects :=
  (behind (silent_word _ _) h).given

theorem size_kind_name (kind : Kind) : Utf8.size kind.name < 2 ^ 16 := by
  cases kind <;> decide

theorem tag_known_iff {kind : Kind} {announced : Nat} {bytes : Bytes} {kinds : List LobKind} :
    Format.tag allowed (.known kind) announced bytes kinds ↔
      Writes (.tag kind) bytes ∧ kinds = [] := by
  constructor
  · rintro (⟨rfl, rfl⟩ | hname)
    · exact ⟨.code kind, rfl⟩
    · obtain ⟨_, rfl, htext⟩ := seq_exactly.mp hname
      rw [fields_singleton] at htext
      obtain ⟨-, htext⟩ := htext
      obtain ⟨_, rfl, hencoded⟩ := seq_exactly.mp htext
      rw [fields_singleton] at hencoded
      obtain ⟨rfl, rfl⟩ := hencoded
      exact ⟨.name kind, rfl⟩
  · rintro ⟨hwrites, rfl⟩
    cases hwrites with
    | code => exact .inl ⟨rfl, rfl⟩
    | name =>
      refine .inr (seq_exactly.mpr ⟨_, List.append_assoc .., ?_⟩)
      rw [fields_singleton]
      refine ⟨size_kind_name kind, seq_exactly.mpr ⟨_, rfl, ?_⟩⟩
      rw [fields_singleton]
      exact ⟨rfl, rfl⟩

/-- A tag of a registered kind may be exchanged, and that of a foreign type may not. -/
theorem tag (t : Tag) : Laid (Format.tag allowed t) t.kinds [] := by
  cases t with
  | foreign name => exact silent (silent_tag _)
  | known kind =>
    intro announced bytes kinds htag
    obtain ⟨hwrites, rfl⟩ := tag_known_iff.mp htag
    refine ⟨rfl, [.tag kind], rfl, writeAll_singleton.mpr hwrites, fun bytes' h' => ?_⟩
    exact tag_known_iff.mpr ⟨writeAll_singleton.mp h', rfl⟩

theorem values {items : List Value}
    (h : ∀ v ∈ items, Laid (Format.value allowed v) v.tags v.lobKinds) :
    Laid (Format.counted (each allowed items)) (tagsOfEach items)
      (items.flatMap Value.lobKinds) := by
  rw [each_eq, tagsOfEach_eq]
  exact counted (all h)

theorem countedRows {cells : List Row}
    (h : ∀ row ∈ cells, ∀ v ∈ row, Laid (Format.value allowed v) v.tags v.lobKinds) :
    Laid (Format.counted (rows allowed cells)) (tagsOfRows cells)
      (cells.flatMap fun row => row.flatMap Value.lobKinds) := by
  rw [rows_eq, tagsOfRows_eq]
  exact counted (all fun row hrow => counted (all (h row hrow)))

theorem value {v : Value} (h : Laid (Format.body allowed v) v.tagsInside objects) :
    Laid (Format.value allowed v) v.tags objects :=
  (tag v.tag).seq h

theorem message {m : Message} (h : Laid (Format.messageBody allowed m) m.tagsInside objects) :
    Laid (Format.message allowed m) m.tags objects :=
  (tag (.known m.kind)).seq h

theorem exception (e : ServerException) :
    Laid (Format.exception allowed e) [.exception] [] :=
  (tag (.known .exception)).before (silent_exceptionBody e)

theorem optionalException (failure : Option ServerException) :
    Laid (Format.optionalException allowed failure)
      [if failure.isSome then .exception else .null] [] := by
  cases failure with
  | none =>
    change Laid (Format.tag allowed (.known .null)) [.null] []
    exact tag (.known .null)
  | some e => exact exception e

theorem hereditary : Hereditary (fun v => Laid (Format.value allowed v) v.tags v.lobKinds)
    (fun m => Laid (Format.message allowed m) m.tags m.lobKinds) where
  null := value (silent (silent_exactly _))
  boolean _ := value (silent (silent_boolean _))
  integer _ := value (silent (silent_exactly _))
  long _ := value (silent (silent_int64 _))
  double _ := value (silent (silent_uint64 _))
  string _ := value (silent (silent_text _))
  binary _ := value (silent (silent_lengthBytes _))
  list items ih := by
    refine value ?_
    rw [Value.lobKinds, Value.parts, List.filterMap_cons_none rfl, lobKinds_partsOfEach, body]
    exact values ih
  lob l := by
    obtain ⟨kind, content⟩ := l
    refine value ?_
    rw [body]
    refine given (behind (silent_byte _) (last (untagged ?_)))
    exact fun announced bytes kinds h => h.2.2
  reference r := value (silent (silent_reference r))
  message m ih := by
    rw [value_message]
    exact ih
  named typeName parts ih := by
    refine value ?_
    rw [Value.lobKinds, Value.parts, List.filterMap_cons_none rfl, lobKinds_partsOfEach, body]
    exact values ih
  handshake _ := message (silent (silent_fields (by simp)))
  invocation i ih := by
    obtain ⟨key, service, method, args⟩ := i
    refine message ?_
    rw [Message.lobKinds, Message.parts, List.filterMap_cons_none rfl, lobKinds_partsOfEach,
      messageBody]
    exact behind (silent_uint64 _) (behind (silent_byte _) (behind (silent_shortText _)
      (last (values ih))))
  answer key v ih := by
    refine message ?_
    rw [Message.lobKinds, Message.parts, List.filterMap_cons_none rfl, messageBody]
    exact behind (silent_uint64 _) (behind (silent_boolean _) (last ih))
  failure key e := by
    refine message ?_
    rw [messageBody]
    exact behind (silent_uint64 _) (behind (silent_boolean _) (last (exception e)))
  request r ih := by
    obtain ⟨executionId, sql, parameters, fetchSize, cursorType, rowLimit, queryTimeout⟩ := r
    refine message ?_
    rw [Message.lobKinds, Message.parts, List.filterMap_cons_none rfl, lobKinds_partsOfEach,
      messageBody]
    exact behind (silent_int64 _) (behind (silent_text _) (before (values ih)
      (silent_fields (by simp))))
  results r ih := by
    obtain ⟨firstRow, lastRow, finalRow, columns, cells, updateCount, warnings, failure⟩ := r
    refine message ?_
    rw [Message.lobKinds, Message.parts, List.filterMap_cons_none rfl, lobKinds_partsOfRows,
      messageBody]
    have hfailure : Laid (Format.optionalException allowed failure) _ _ :=
      optionalException failure
    have hrows := (countedRows ih).seq (behind (silent_optional silent_int64 updateCount)
      (behind (silent_counted silent_text warnings) (last hfailure)))
    rw [List.append_nil] at hrows
    exact behind (silent_int64 _) (behind (silent_int64 _) (behind (silent_int64 _)
      (behind (silent_counted silent_column _) hrows)))
  chunk _ := message (silent (silent_fields (by simp)))
  exception e := message (silent (silent_exceptionBody e))
  logonRequest _ := message (silent (silent_fields (by simp)))
  logonResult _ := message (silent (silent_fields (by simp)))

end Format.Laid

namespace Frame

variable {allowed : AllowList} {m : Message} {payload : Bytes} {kinds : List LobKind}

theorem laid_payload (allowed : AllowList) (m : Message) :
    (Format.payload allowed m).Laid m.tags m.lobKinds :=
  .behind (silent_byte version) (.last (Format.Laid.hereditary.of_message m))

/-- A payload is accepted exactly if the grammar has it and it is not nested too deep; what an
encoder writes, with permitted names, is in the grammar. The objects announced are those of the
message, in order. With any of its registered tags in the other form, an accepted payload is accepted
for the same message. -/
theorem decodePayload_grammar (allowed : AllowList) (payload : Bytes) (m : Message)
    (kinds : List LobKind) :
    (decodePayload allowed payload = .ok (m, kinds) ↔
      m.height ≤ 64 ∧ Format.payload allowed m 0 payload kinds) ∧
    (∀ options sent contents, options.maxSize < 2 ^ 32 →
      (∀ part ∈ sent.parts, part.Permitted allowed) →
      encodePayload options sent = .ok (payload, contents) →
        Format.payload allowed sent.asSent 0 payload sent.asSent.lobKinds) ∧
    (decodePayload allowed payload = .ok (m, kinds) → kinds = m.lobKinds ∧
      ∃ tokens, tokens.filterMap Token.kind? = m.tags ∧ WriteAll tokens payload ∧
        ∀ payload', WriteAll tokens payload' →
          decodePayload allowed payload' = .ok (m, kinds)) := by
  refine ⟨decodePayload_eq_ok_iff, ?_, fun h => ?_⟩
  · intro options sent contents hlimit hpermitted hencode
    obtain ⟨kinds, hf, -⟩ := encodePayload_ok hlimit hpermitted hencode
    obtain ⟨rfl, -⟩ := laid_payload allowed sent.asSent _ _ _ hf
    exact hf
  · obtain ⟨hheight, hf⟩ := decodePayload_eq_ok_iff.mp h
    obtain ⟨hkinds, tokens, htags, hwritten, hall⟩ := laid_payload allowed m _ _ _ hf
    exact ⟨hkinds, tokens, htags, hwritten, fun payload' h' =>
      decodePayload_eq_ok_iff.mpr ⟨hheight, hall payload' h'⟩⟩

/-- An answer with an object in a list, where one tag of four stands by name. -/
def mixedPayload : Bytes :=
  [version, Kind.reply.code] ++ Bytes.ofNat 8 7 ++ [0, Kind.byName] ++ Bytes.ofNat 2 4 ++
    Utf8.encode Kind.list.name ++ Bytes.ofNat 4 2 ++
    [Kind.null.code, Kind.streamReference.code, LobKind.clob.code] ++ Bytes.ofNat 2 0

theorem decodePayload_grammar_mixedPayload : ∃ (m : Message) (tokens : List Token),
    decodePayload .empty mixedPayload = .ok (m, [.clob]) ∧
    tokens.filterMap Token.kind? = [.reply, .list, .null, .streamReference] ∧
    WriteAll tokens mixedPayload ∧ ∀ payload', WriteAll tokens payload' →
      decodePayload .empty payload' = .ok (m, [.clob]) := by
  have hread : ((decodePayload .empty mixedPayload).toOption.map fun (m, kinds) => (m.tags, kinds)) =
      some ([.reply, .list, .null, .streamReference], [.clob]) := by
    decide +kernel
  obtain ⟨⟨m, kinds⟩, hdecode, hsame⟩ := Operation.exists_of_toOption_map hread
  obtain ⟨htags, rfl⟩ : m.tags = _ ∧ kinds = _ := Prod.mk.inj hsame
  obtain ⟨-, tokens, htokens, hwritten, hall⟩ := (decodePayload_grammar _ _ _ _).2.2 hdecode
  exact ⟨m, tokens, hdecode, htokens.trans htags, hwritten, hall⟩

end Frame

end QueryClient

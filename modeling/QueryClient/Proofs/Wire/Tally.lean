import QueryClient.Proofs.Value
import QueryClient.Proofs.Wire.Advancing
import QueryClient.Proofs.Wire.Nesting

/-!
# What is read is paid for in bytes

Every value, row, column, property, warning, message and exception has at least one byte of its own
in the grammar (`Format.AtLeast`), so a read takes at least as many bytes as there are things in
what it gives (`Costs`), whatever counts the bytes declare. With reading that only goes ahead, this
holds of every call in any sequence of calls, also after calls that failed.
-/

namespace QueryClient

open Format Operation

mutual

/-- How many things there are in a value: values, messages and exceptions, and rows, columns,
warnings and properties. -/
def Value.tally : Value → Nat
  | .list items => tallyOfEach items + 1
  | .named _ fields => tallyOfEach fields + 1
  | .message m => m.tally + 1
  | _ => 1

def tallyOfEach : List Value → Nat
  | [] => 0
  | v :: rest => v.tally + tallyOfEach rest

def tallyOfRows : List Row → Nat
  | [] => 0
  | row :: rest => tallyOfEach row + 1 + tallyOfRows rest

/-- How many things there are in a message, which is one itself. -/
def Message.tally : Message → Nat
  | .invocation ⟨_, _, _, args⟩ => tallyOfEach args + 1
  | .reply ⟨_, .ok v⟩ => v.tally + 1
  | .reply ⟨_, .error _⟩ => 2
  | .request ⟨_, _, parameters, _, _, _, _⟩ => tallyOfEach parameters + 1
  | .results ⟨_, _, _, columns, rows, _, warnings, exception⟩ =>
    columns.length + tallyOfRows rows + warnings.length + (if exception.isSome then 1 else 0) + 1
  | .exception _ => 2
  | .logonRequest request => request.properties.length + 1
  | _ => 1

end

theorem tallyOfEach_eq (items : List Value) : tallyOfEach items = (items.map Value.tally).sum := by
  induction items with
  | nil => rfl
  | cons v rest ih => rw [tallyOfEach, ih, List.map_cons, List.sum_cons]

theorem tallyOfRows_eq (rows : List Row) :
    tallyOfRows rows = (rows.map fun row => (row.map Value.tally).sum + 1).sum := by
  induction rows with
  | nil => rfl
  | cons row rest ih => rw [tallyOfRows, ih, tallyOfEach_eq, List.map_cons, List.sum_cons]

namespace Format

variable {α : Type} {m n : Nat} {f g : Format} {rest : List Format}

/-- A format of at least so many bytes. -/
def AtLeast (n : Nat) (f : Format) : Prop :=
  ∀ announced bytes kinds, f announced bytes kinds → n ≤ bytes.length

theorem Solid.atLeast (h : f.Solid) : AtLeast 1 f :=
  fun announced bytes kinds hf => List.length_pos_iff.mpr (h announced bytes kinds hf)

namespace AtLeast

theorem zero (f : Format) : AtLeast 0 f :=
  fun _ _ _ _ => Nat.zero_le _

theorem mono (h : AtLeast n f) (hle : m ≤ n) : AtLeast m f :=
  fun announced bytes kinds hf => hle.trans (h announced bytes kinds hf)

theorem given (h : AtLeast n f) (p : Prop) : AtLeast n (f.given p) :=
  fun announced bytes kinds hf => h announced bytes kinds hf.2

theorem seq (hf : AtLeast m f) (hg : AtLeast n g) : AtLeast (m + n) (f.seq g) := by
  rintro announced _ _ ⟨first, kinds₁, second, kinds₂, hfirst, hsecond, rfl, -⟩
  rw [List.length_append]
  exact Nat.add_le_add (hf _ _ _ hfirst) (hg _ _ _ hsecond)

theorem cons (hf : AtLeast m f) (hrest : AtLeast n (fields rest)) :
    AtLeast (m + n) (fields (f :: rest)) :=
  hf.seq hrest

/-- A field that nothing is counted for. -/
theorem skip (f : Format) (hrest : AtLeast n (fields rest)) : AtLeast n (fields (f :: rest)) :=
  ((zero f).cons hrest).mono (Nat.zero_add n).ge

theorem last (hf : AtLeast n f) : AtLeast n (fields [f]) := by
  rwa [fields_singleton]

/-- What is counted has at least a byte of its own, the first one of the count. -/
theorem counted {f : α → Format} {size : α → Nat} {items : List α}
    (h : ∀ a ∈ items, AtLeast (size a) (f a)) :
    AtLeast ((items.map size).sum + 1) (Format.counted (items.map f)) := by
  have hitems : AtLeast (items.map size).sum (fields (items.map f)) := by
    induction items with
    | nil => exact zero _
    | cons a rest ih =>
      rw [List.forall_mem_cons] at h
      rw [List.map_cons, List.map_cons, List.sum_cons]
      exact (h.1).cons (ih h.2)
  exact (((solid_word 3 _).atLeast.cons hitems).given _).mono (Nat.add_comm _ _).le

theorem counted_solid {f : α → Format} (h : ∀ a, (f a).Solid) (items : List α) :
    AtLeast items.length (Format.counted (items.map f)) := by
  have hitems : AtLeast items.length (fields (items.map f)) := by
    intro announced bytes kinds hf
    have hlength := length_le_of_fields (List.forall_mem_map.mpr fun a _ => h a) hf
    rwa [List.length_map] at hlength
  exact (hitems.skip _).given _

variable {allowed : AllowList}

theorem values {items : List Value} (h : ∀ v ∈ items, AtLeast v.tally (value allowed v)) :
    AtLeast (tallyOfEach items) (Format.counted (each allowed items)) := by
  rw [tallyOfEach_eq, each_eq]
  exact (counted h).mono (Nat.le_succ _)

theorem rows {cells : List Row} (h : ∀ row ∈ cells, ∀ v ∈ row, AtLeast v.tally (value allowed v)) :
    AtLeast (tallyOfRows cells) (Format.counted (Format.rows allowed cells)) := by
  rw [tallyOfRows_eq, rows_eq]
  exact (counted fun row hrow => counted (h row hrow)).mono (Nat.le_succ _)

end AtLeast

variable (allowed : AllowList)

/-- A value behind its tag, of which the tag is the one byte that the value itself has at least. -/
theorem AtLeast.tagged {v : Value} (h : AtLeast n (body allowed v)) :
    AtLeast (n + 1) (value allowed v) :=
  ((solid_tag allowed v.tag).atLeast.seq h).mono (Nat.add_comm n 1).le

theorem solid_optional (f : α → Format) (o : Option α) : (optional f o).Solid := by
  cases o with
  | none => exact solid_byte _
  | some a => exact (solid_byte _).fields _

theorem solid_exception (e : ServerException) : (exception allowed e).Solid :=
  (solid_tag allowed _).seq _

theorem solid_optionalException (e : Option ServerException) :
    (optionalException allowed e).Solid := by
  cases e with
  | none => exact solid_tag allowed (.known .null)
  | some e => exact solid_exception allowed e

/-- Every thing in a value or a message takes a byte. -/
theorem hereditary_tally : Hereditary (fun v => AtLeast v.tally (value allowed v))
    (fun m => AtLeast m.tally (messageBody allowed m)) where
  null := (AtLeast.zero _).tagged allowed
  boolean _ := (AtLeast.zero _).tagged allowed
  integer _ := (AtLeast.zero _).tagged allowed
  long _ := (AtLeast.zero _).tagged allowed
  double _ := (AtLeast.zero _).tagged allowed
  string _ := (AtLeast.zero _).tagged allowed
  binary _ := (AtLeast.zero _).tagged allowed
  list items hitems := (AtLeast.values hitems).tagged (v := .list items) allowed
  lob _ := (AtLeast.zero _).tagged allowed
  reference _ := (AtLeast.zero _).tagged allowed
  message m hm := AtLeast.tagged (v := .message m) allowed hm
  named typeName fields hfields :=
    (AtLeast.values hfields).tagged (v := .named typeName fields) allowed
  handshake _ := ((solid_byte _).fields _).atLeast
  invocation := by
    rintro ⟨key, service, method, args⟩ hargs
    have hfields := (solid_word 7 key.toNat).atLeast.cons
      (((AtLeast.values hargs).last.skip (shortText method)).skip (byte service.code))
    exact hfields.mono (Nat.add_comm _ _).le
  answer key v hv := by
    have hfields := (solid_word 7 key.toNat).atLeast.cons (hv.last.skip (boolean false))
    exact hfields.mono (Nat.add_comm _ _).le
  failure key e :=
    (solid_word 7 key.toNat).atLeast.cons
      ((solid_exception allowed e).atLeast.last.skip (boolean true))
  request := by
    rintro ⟨executionId, sql, parameters, fetchSize, cursorType, rowLimit, queryTimeout⟩ hparameters
    have hrest : AtLeast 0 (fields [uint32 fetchSize, byte cursorType.code, uint32 rowLimit,
      timeout queryTimeout]) := AtLeast.zero _
    have hfields := (solid_word 7 executionId.toUInt64.toNat).atLeast.cons
      (((AtLeast.values hparameters).cons hrest).skip (text sql))
    exact hfields.mono (Nat.add_comm _ _).le
  results := by
    rintro ⟨firstRow, lastRow, finalRow, columns, cells, updateCount, warnings, failure⟩ hcells
    have hwarnings := (AtLeast.counted_solid solid_text warnings).cons
      (solid_optionalException allowed failure).atLeast.last
    have hrows : AtLeast (tallyOfRows cells) (counted (rows allowed cells)) := AtLeast.rows hcells
    have hcolumns := (AtLeast.counted_solid solid_column columns).cons
      (hrows.cons (hwarnings.skip (optional int64 updateCount)))
    have hfields := (solid_word 7 firstRow.toUInt64.toNat).atLeast.cons
      ((hcolumns.skip (int64 finalRow)).skip (int64 lastRow))
    apply hfields.mono
    rw [Message.tally]
    split <;> omega
  chunk _ := ((solid_lengthBytes _).fields _).atLeast
  exception e :=
    (solid_optional text e.className).atLeast.cons ((solid_optional text e.code).atLeast.cons
      (AtLeast.zero (fields [text e.message])))
  logonRequest request := by
    have hproperties := (AtLeast.counted_solid solid_property request.properties).last
    have hrest := (hproperties.skip (optional lengthBytes request.token)).skip
      (optional text request.password)
    have hfields := (solid_optional text request.user).atLeast.cons hrest
    exact hfields.mono (Nat.add_comm _ _).le
  logonResult _ := ((solid_lengthBytes _).fields _).atLeast

end Format

namespace Decoder

variable {α β : Type} {size : α → Nat} {r : Decode α}

/-- A read that takes at least so many bytes for what it gives. -/
def Costs (size : α → Nat) (r : Decode α) : Prop :=
  ∀ d a e, r d = (.ok a, e) → d.reader.pos + size a ≤ e.reader.pos

namespace Costs

/-- A read that follows a format takes the bytes that the format has at least. -/
theorem of_reads {f : AllowList → α → Format} (hr : ∀ allowed, Reads allowed r (f allowed))
    (hf : ∀ allowed a, AtLeast (size a) (f allowed a)) : Costs size r := by
  rintro ⟨⟨bytes, pos⟩, slots, depth, allowed⟩ a e h
  obtain ⟨taken, rest, kinds, rfl, htaken, rfl⟩ := (hr allowed ..).mp h
  exact Nat.add_le_add_left (hf allowed a _ taken kinds htaken) pos

theorem pure {a : α} (h : size a = 0) : Costs size (Pure.pure a) := by
  intro d a' e hpure
  obtain ⟨rfl, rfl⟩ := pure_eq_ok_iff.mp hpure
  rw [h, Nat.add_zero]

theorem throw (fault : Fault) : Costs size (MonadExcept.throw fault : Decode α) := by
  intro d a e h
  cases h

/-- What is read first need not be counted. -/
theorem bind {next : α → Decode β} {total : β → Nat} (hr : Steady r)
    (hnext : ∀ a, Costs total (next a)) : Costs total (r >>= next) := by
  intro d b e h
  obtain ⟨a, between, hfirst, hsecond⟩ := bind_eq_ok_iff.mp h
  have hahead := (hr.of_eq hfirst).reader.pos_le
  exact (Nat.add_le_add_right hahead _).trans (hnext a between b e hsecond)

/-- What is read, put into another form. -/
theorem map {φ : α → β} {total : β → Nat} (hr : Costs size r) (h : ∀ a, total (φ a) = size a) :
    Costs total (r >>= fun a => Pure.pure (φ a)) := by
  intro d b e hmap
  obtain ⟨a, between, hfirst, hsecond⟩ := bind_eq_ok_iff.mp hmap
  obtain ⟨rfl, rfl⟩ := pure_eq_ok_iff.mp hsecond
  rw [h]
  exact hr d a _ hfirst

/-- What is read may depend on the levels left, if what it costs does not. -/
theorem onLevels {next : Nat → Decode α} (hnext : ∀ levels, Costs size (next levels)) :
    Costs size (levels >>= next) :=
  bind Steady.levels hnext

end Costs

theorem costs_value : Costs Value.tally value :=
  .onLevels fun levels => .of_reads (fun _ => Reads.valueWithin levels) fun allowed v =>
    ((hereditary_tally allowed).of_value v).given _

theorem costs_values : Costs tallyOfEach values := by
  apply Costs.onLevels
  intro levels
  apply Costs.of_reads fun _ => Reads.countedValues (Reads.valueWithin levels)
  intro allowed items
  rw [← each_eq]
  exact (AtLeast.values fun v _ => (hereditary_tally allowed).of_value v).given _

/-- The bytes are taken for a value, which is one thing more than the message. -/
theorem costs_message : Costs Message.tally message := by
  intro d m e h
  obtain ⟨v, between, hvalue, hmessage⟩ := bind_eq_ok_iff.mp h
  have hcost := costs_value d v between hvalue
  cases v with
  | message m' =>
    obtain ⟨rfl, rfl⟩ := pure_eq_ok_iff.mp hmessage
    exact (Nat.add_le_add_left (Nat.le_succ _) _).trans hcost
  | _ => cases hmessage

theorem costs_objectBody (kind : Kind) : Costs Message.tally (objectBody kind) := by
  apply Costs.onLevels
  rintro (_ | levels)
  · exact .throw _
  · apply Costs.of_reads fun _ => (Reads.messageBody (Reads.valueWithin levels) kind).deeper
    intro allowed m
    exact ((hereditary_tally allowed).of_message m).given _

theorem costs_object (kind : Kind) : Costs Message.tally (object kind) := by
  apply Costs.bind Steady.tag
  intro met
  split
  · exact costs_objectBody kind
  · exact .throw _

/-- An absent message is no thing at all. -/
theorem costs_optionalObject (kind : Kind) :
    Costs (fun m? => m?.elim 0 Message.tally) (optionalObject kind) := by
  apply Costs.bind Steady.tag
  intro met
  split
  · exact .pure rfl
  · split
    · exact (costs_objectBody kind).map fun m => rfl
    · exact .throw _

/-- What may be called on a decoder. -/
inductive Call where
  | tag
  | value
  | values
  | message
  /-- A message of one kind. -/
  | object (kind : Kind)
  /-- A message of one kind, or null. -/
  | optionalObject (kind : Kind)

/-- What a call gives when it succeeds. -/
inductive Answer where
  | tag (met : Tag)
  | value (v : Value)
  | values (items : List Value)
  | message (m : Message)
  | absent

/-- How many things there are in an answer. -/
def Answer.tally : Answer → Nat
  | .tag _ => 0
  | .value v => v.tally
  | .values items => tallyOfEach items
  | .message m => m.tally
  | .absent => 0

def Call.perform : Call → Decode Answer
  | .tag => return .tag (← Decoder.tag)
  | .value => return .value (← Decoder.value)
  | .values => return .values (← Decoder.values)
  | .message => return .message (← Decoder.message)
  | .object kind => return .message (← Decoder.object kind)
  | .optionalObject kind => return (← Decoder.optionalObject kind).elim .absent .message

/-- The decoder after some calls, whatever became of each. -/
def after (d : Decoder) (calls : List Call) : Decoder :=
  calls.foldl (fun d call => (call.perform d).2) d

theorem Call.steady_perform (call : Call) : Steady call.perform := by
  cases call with
  | tag => exact Steady.tag.bind fun _ => .pure _
  | value => exact Steady.value.bind fun _ => .pure _
  | values => exact Steady.values.bind fun _ => .pure _
  | message => exact Steady.message.bind fun _ => .pure _
  | object kind => exact (Steady.object kind).bind fun _ => .pure _
  | optionalObject kind => exact (Steady.optionalObject kind).bind fun _ => .pure _

theorem Call.costs_perform (call : Call) : Costs Answer.tally call.perform := by
  cases call with
  | tag => exact .bind Steady.tag fun _ => .pure rfl
  | value => exact costs_value.map fun _ => rfl
  | values => exact costs_values.map fun _ => rfl
  | message => exact costs_message.map fun _ => rfl
  | object kind => exact (costs_object kind).map fun _ => rfl
  | optionalObject kind =>
    apply (costs_optionalObject kind).map
    rintro (_ | m)
    · rfl
    · rfl

/-- However many calls are made, the decoder only goes ahead. -/
theorem ahead_after (d : Decoder) (calls : List Call) : d.Ahead (d.after calls) :=
  Moves.foldl Ahead.refl Ahead.trans Call.steady_perform calls d

/-- Whatever the bytes are and whatever calls were made before, a call comes to an outcome. Be it a
success or a failure, the call has not gone back, has stayed within the bytes and leaves the decoder
as deep as it was; and for every thing in what it gives it has taken a byte, whatever counts and
lengths the bytes declare. -/
theorem calls_cost_bytes (d : Decoder) (calls : List Call) (call : Call) :
    ∃ outcome behind, call.perform (d.after calls) = (outcome, behind) ∧
      (d.after calls).reader.pos ≤ behind.reader.pos ∧
      behind.reader.pos ≤ d.reader.pos + d.reader.rest.length ∧
      behind.depth = (d.after calls).depth ∧
      ∀ answer, outcome = .ok answer →
        answer.tally ≤ behind.reader.pos - (d.after calls).reader.pos := by
  rcases hperform : call.perform (d.after calls) with ⟨outcome, behind⟩
  have hstep := call.steady_perform.of_eq hperform
  have hrun : d.Ahead behind := (ahead_after d calls).trans hstep
  refine ⟨outcome, behind, rfl, hstep.reader.pos_le, ?_, hstep.depth_eq, ?_⟩
  · have hend := hrun.reader.end_eq
    omega
  · rintro answer rfl
    have hcost := call.costs_perform _ answer behind hperform
    omega

/-- A list that declares more items than there can be, and then one that has its two. -/
def boastfulBytes : Bytes :=
  [Kind.list.code, 255, 255, 255, 255, Kind.list.code, 0, 0, 0, 2, Kind.null.code, Kind.null.code]

/-- The list that cannot be read leaves the decoder behind its count, and the next one is read from
there. -/
theorem calls_cost_bytes_boastfulBytes :
    ∃ answer behind, Call.value.perform ((ofBytes boastfulBytes .empty).after [.value]) =
        (.ok answer, behind) ∧
      answer.tally = 3 ∧ 3 ≤ behind.reader.pos - 5 ∧ behind.reader.pos ≤ 12 ∧ behind.depth = 0 := by
  obtain ⟨outcome, behind, hperform, -, hend, hdepth, hcost⟩ :=
    calls_cost_bytes (ofBytes boastfulBytes .empty) [.value] .value
  have htally : (Call.value.perform ((ofBytes boastfulBytes .empty).after [.value])).1.toOption.map
      Answer.tally = some 3 := by
    decide +kernel
  obtain ⟨answer, hanswer, hthree⟩ := exists_of_toOption_map htally
  rw [hperform] at hanswer
  subst hanswer
  have hpos : ((ofBytes boastfulBytes .empty).after [.value]).reader.pos = 5 := by decide +kernel
  have hbytes := hcost answer rfl
  rw [hthree, hpos] at hbytes
  have hflat : ((ofBytes boastfulBytes .empty).after [.value]).depth = 0 := by decide +kernel
  exact ⟨answer, behind, hperform, hthree, hbytes, hend, hdepth.trans hflat⟩

end Decoder

end QueryClient

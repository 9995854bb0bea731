import QueryClient.Proofs.Wire.Encounter
import QueryClient.Proofs.Wire.Faults
import QueryClient.Proofs.Wire.RoundTrip

/-!
# Names that are refused

`Encounters` says that a decoder refuses exactly the names that an encounter has and that the
allow-list does not resolve, and that it never fails with anything but corruption. It is put
together along the text of the decoder, on top of what the decoder reads: whatever lies behind a
refused name is never reached, and whatever lies before it has been read.
-/

namespace QueryClient

open Operation

variable {α β : Type} {allowed : AllowList} {r : Decode α} {f : α → Format} {h : Encounter}

/-- A read that refuses the names of an encounter, unless they are resolved. -/
structure Encounters (allowed : AllowList) (r : Decode α) (h : Encounter) : Prop where
  corrupt : Faults (·.classOf = .protocolCorruption) r
  refused : ∀ bytes pos slots depth name,
    (r ⟨⟨bytes, pos⟩, slots, depth, allowed⟩).1 = .error (.disallowedType name) ↔
      h slots.size bytes name ∧ allowed.resolve name = .error (.disallowedType name)

namespace Encounters

theorem plain (hr : Plain r) : Encounters allowed r .never where
  corrupt := hr.mono fun _ => And.left
  refused bytes pos slots depth name := by
    constructor
    · intro hfault
      exact absurd rfl ((hr _ _ hfault).2 name)
    · rintro ⟨hnever, -⟩
      exact hnever.elim

/-- Two reads, the encounter of the second depending on what the first has read. -/
theorem bind {g : α → Decode β} {h' : α → Encounter} (hreads : Reads allowed r f)
    (hr : Encounters allowed r h) (hg : ∀ a, Encounters allowed (g a) (h' a)) :
    Encounters allowed (r >>= g) (.either h (.any fun a => .behind (f a) (h' a))) where
  corrupt := hr.corrupt.bind fun a => (hg a).corrupt
  refused bytes pos slots depth name := by
    rw [fst_bind_eq_error_iff]
    constructor
    · rintro (hfirst | ⟨a, d, hfirst, hsecond⟩)
      · obtain ⟨hh, hresolve⟩ := (hr.refused ..).mp hfirst
        exact ⟨.inl hh, hresolve⟩
      · obtain ⟨taken, rest, kinds, rfl, hf, rfl⟩ := (hreads ..).mp hfirst
        obtain ⟨hh, hresolve⟩ := ((hg a).refused ..).mp hsecond
        rw [Array.size_append, List.size_toArray] at hh
        exact ⟨.inr ⟨a, taken, kinds, rest, hf, hh, rfl⟩, hresolve⟩
    · rintro ⟨hh | ⟨a, taken, kinds, rest, hf, hh, rfl⟩, hresolve⟩
      · exact .inl ((hr.refused ..).mpr ⟨hh, hresolve⟩)
      · refine .inr ⟨a, _, (hreads ..).mpr ⟨taken, rest, kinds, rfl, hf, rfl⟩, ?_⟩
        refine ((hg a).refused ..).mpr ⟨?_, hresolve⟩
        rwa [Array.size_append, List.size_toArray]

/-- A plain read, and then one that depends on what was read. -/
theorem afterEach {g : α → Decode β} {h' : α → Encounter} (hreads : Reads allowed r f)
    (hr : Plain r) (hg : ∀ a, Encounters allowed (g a) (h' a)) :
    Encounters allowed (r >>= g) (.any fun a => .behind (f a) (h' a)) := by
  have hbind := bind hreads (plain hr) hg
  rwa [Encounter.never_either] at hbind

theorem after {g : α → Decode β} (hreads : Reads allowed r f) (hr : Plain r)
    (hg : ∀ a, Encounters allowed (g a) h) :
    Encounters allowed (r >>= g) (.behind (Format.any f) h) := by
  rw [← Encounter.any_behind]
  exact afterEach hreads hr hg

/-- A read with nothing but plain reads behind it. -/
theorem before {g : α → Decode β} (hr : Encounters allowed r h) (hg : ∀ a, Plain (g a)) :
    Encounters allowed (r >>= g) h where
  corrupt := hr.corrupt.bind fun a => (hg a).mono fun _ => And.left
  refused bytes pos slots depth name := by
    rw [← hr.refused bytes pos slots depth name, fst_bind_eq_error_iff]
    constructor
    · rintro (hfirst | ⟨a, d, -, hsecond⟩)
      · exact hfirst
      · exact absurd rfl ((hg a _ _ hsecond).2 name)
    · exact .inl

theorem deeper (hr : Encounters allowed r h) : Encounters allowed (Decoder.deeper r) h where
  corrupt := fun ⟨reader, slots, depth, allowed⟩ fault hfault =>
    hr.corrupt ⟨reader, slots, depth + 1, allowed⟩ fault hfault
  refused bytes pos slots depth := hr.refused bytes pos slots (depth + 1)

/-- A read that is made only if enough bytes are left. -/
theorem believed {n : Nat} {otherwise : Decode α} (hr : Encounters allowed r h)
    (hotherwise : Plain otherwise) :
    Encounters allowed (getThe Decoder >>= fun d =>
      if d.reader.rest.holds n then r else otherwise) (.believed n h) where
  corrupt := by
    refine Faults.bind (.sure fun d => ⟨d, rfl⟩) fun d => ?_
    split
    · exact hr.corrupt
    · exact hotherwise.mono fun _ => And.left
  refused bytes pos slots depth name := by
    change ((if bytes.holds n then r else otherwise)
      ⟨⟨bytes, pos⟩, slots, depth, allowed⟩).1 = .error (.disallowedType name) ↔ _
    rw [Bytes.holds_eq_decide]
    by_cases hn : n ≤ bytes.length
    · rw [if_pos (decide_eq_true hn), hr.refused]
      exact and_congr_left' (and_iff_right hn).symm
    · rw [if_neg (by simpa using hn)]
      constructor
      · intro hfault
        exact absurd rfl ((hotherwise _ _ hfault).2 name)
      · rintro ⟨⟨hle, -⟩, -⟩
        exact absurd hle hn

theorem times (hreads : Reads allowed r f) (hr : Encounters allowed r h) (n : Nat)
    (before : List α) : Encounters allowed (Decoder.times r n before) (.among f h n) := by
  induction n generalizing before with
  | zero =>
    rw [Encounter.among_zero]
    exact plain (.pure _)
  | succ n ih =>
    rw [Encounter.among_succ]
    exact bind hreads hr fun a => ih (a :: before)

/-- Things behind their number. -/
theorem behindCount {g : Nat → Decode β} {h' : Nat → Encounter}
    (hg : ∀ n, Encounters allowed (g n) (h' n)) :
    Encounters allowed (liftM Reader.uint32 >>= fun n => g n.toNat)
      (.any fun n : UInt32 => .behind (Format.uint32 n) (h' n.toNat)) :=
  afterEach Reads.uint32 (Decoder.plain_read Reader.plain_uint32) fun n => hg n.toNat

theorem countedValues {r : Decode Value} {f : Value → Format} (hreads : Reads allowed r f)
    (hr : Encounters allowed r h) :
    Encounters allowed (Decoder.counted r) (.countedValues f h) := by
  have hbelieved : ∀ n : Nat, Encounters allowed
      (do
        if (← getThe Decoder).reader.rest.holds n then
          Decoder.times r n []
        else
          MonadExcept.throw (.bufferUnderflow n (← Decoder.remaining)))
      (.believed n (.among f h n)) := by
    intro n
    exact believed (times hreads hr n [])
      (Faults.bind (.sure fun d => ⟨_, rfl⟩) fun _ => .throw ⟨rfl, nofun⟩)
  exact behindCount hbelieved

section Counted

variable {γ : Type} {item : Decode γ} {g : List γ → Decode β} {h' : Encounter} {f : γ → Format}

/-- What follows things behind their number that are plainly read. -/
theorem afterCount {item : Read γ} (hreads : Reads allowed (liftM item) f) (hitem : Plain item)
    (hg : ∀ items, Encounters allowed (g items) h') :
    Encounters allowed
      (liftM Reader.uint32 >>= fun n => liftM (Reader.times item n.toNat []) >>= g)
      (.behind (.any fun items : List γ => Format.counted (items.map f)) h') := by
  simp only [Decode.liftM_times]
  rw [← bind_assoc]
  apply after (Reads.behindCount (hreads.times_nil ·)) _ hg
  refine (Decoder.plain_read Reader.plain_uint32).bind fun n => ?_
  rw [← Decode.liftM_times]
  exact Decoder.plain_read (Reader.plain_times hitem _ _)

/-- Things behind their number, and what follows them. -/
theorem amongCount (hreads : Reads allowed item f) (hitem : Encounters allowed item h)
    (hg : ∀ items, Encounters allowed (g items) h') :
    Encounters allowed
      (liftM Reader.uint32 >>= fun n => Decoder.times item n.toNat [] >>= g)
      (.either (.counted f h)
        (.behind (.any fun items : List γ => Format.counted (items.map f)) h')) := by
  rw [← bind_assoc, ← Encounter.any_behind]
  exact bind (Reads.behindCount (hreads.times_nil ·))
    (behindCount fun n => times hreads hitem n []) hg

end Counted

/-- A name that is not resolved is refused, and any other is taken for what it stands for. -/
theorem resolved (name : String) {then' : Option Kind → Decode Tag}
    (hthen : ∀ k?, Plain (then' k?)) :
    Encounters allowed (getThe Decoder >>= fun d => liftM (d.allowed.resolve name) >>= then')
      (.named name) where
  corrupt := by
    refine Faults.bind (.sure fun d => ⟨d, rfl⟩) fun d => ?_
    apply Faults.bind
    · intro s fault hfault
      obtain ⟨rfl, -⟩ := AllowList.resolve_eq_error_iff.mp hfault
      rfl
    · exact fun k? => (hthen k?).mono fun _ => And.left
  refused bytes pos slots depth name' := by
    change ((liftM (allowed.resolve name) >>= then' : Decode Tag)
      ⟨⟨bytes, pos⟩, slots, depth, allowed⟩).1 = .error (.disallowedType name') ↔ _
    rw [fst_bind_eq_error_iff]
    constructor
    · rintro (hrefused | ⟨k?, d, -, hfault⟩)
      · have hresolve : allowed.resolve name = .error (.disallowedType name') := hrefused
        obtain ⟨heq, -⟩ := AllowList.resolve_eq_error_iff.mp hresolve
        cases heq
        exact ⟨rfl, hresolve⟩
      · exact absurd rfl ((hthen k? _ _ hfault).2 name')
    · rintro ⟨rfl, hresolve⟩
      exact .inl hresolve

theorem tag : Encounters allowed Decoder.tag .tag := by
  rw [Decoder.tag, ← Encounter.any_code]
  apply afterEach Reads.uint8 (Decoder.plain_read Reader.plain_uint8)
  intro code
  split_ifs
  · apply afterEach Reads.shortString (Decoder.plain_read Reader.plain_shortString)
    intro name
    apply resolved
    rintro (_ | kind) <;> exact .pure _
  · apply plain
    exact (Decoder.plain_kind code).bind fun kind => .pure _

/-! ## Bodies -/

theorem exception (levels : Nat) : Encounters allowed (Decoder.exception levels) .tag := by
  apply tag.before
  intro met
  split_ifs
  · exact Decoder.plain_nested Decoder.plain_exceptionBody levels
  · exact .throw ⟨rfl, nofun⟩

theorem optionalException (levels : Nat) :
    Encounters allowed (Decoder.optionalException levels) .tag := by
  apply tag.before
  intro met
  split_ifs
  · exact .pure _
  · exact (Decoder.plain_nested Decoder.plain_exceptionBody levels).bind fun _ => .pure _
  · exact .throw ⟨rfl, nofun⟩

section Bodies

open Decoder Reader

variable {levels : Nat} {value : Decode Value} {inner : Encounter}
  (hreads : Reads allowed value (Encounter.valueFormat allowed levels))
  (hvalue : Encounters allowed value inner)
include hvalue

theorem replyBody : Encounters allowed (Decoder.replyBody levels value)
    (.body allowed levels inner (.known .reply)) := by
  apply after Reads.uint64 (plain_read plain_uint64)
  intro key
  apply afterEach Reads.boolean (plain_read plain_boolean)
  rintro (_ | _)
  · exact hvalue.before fun v => .pure _
  · exact (exception levels).before fun e => .pure _

include hreads

theorem invocationBody : Encounters allowed (Decoder.invocationBody value)
    (.body allowed levels inner (.known .invocation)) := by
  apply after Reads.uint64 (plain_read plain_uint64)
  intro key
  apply after (Reads.coded Service.ofCode_eq_ok_iff) plain_service
  intro service
  apply after Reads.shortString (plain_read plain_shortString)
  intro method
  exact (countedValues hreads hvalue).before fun args => .pure _

theorem requestBody : Encounters allowed (Decoder.requestBody value)
    (.body allowed levels inner (.known .request)) := by
  apply after Reads.int64 (plain_read plain_int64)
  intro executionId
  apply after Reads.string (plain_read plain_string)
  intro sql
  apply (countedValues hreads hvalue).before
  intro parameters
  exact (plain_read plain_uint32).bind fun _ => plain_cursorType.bind fun _ =>
    (plain_read plain_uint32).bind fun _ => (plain_read plain_uint64).bind fun _ => .pure _

theorem resultsBody : Encounters allowed (Decoder.resultsBody levels value)
    (.body allowed levels inner (.known .results)) := by
  apply after Reads.int64 (plain_read plain_int64)
  intro firstRow
  apply after Reads.int64 (plain_read plain_int64)
  intro lastRow
  apply after Reads.int64 (plain_read plain_int64)
  intro finalRow
  apply afterCount Reads.column plain_column
  intro columns
  have hrow := Reads.counted hreads fun v => (Format.solid_value allowed v).given _
  apply amongCount hrow (countedValues hreads hvalue)
  intro rows
  apply after (Reads.optional Reads.int64) (plain_read (plain_optional plain_int64))
  intro updateCount
  apply afterCount Reads.string plain_string
  intro warnings
  exact (optionalException levels).before fun failure => .pure _

theorem messageBody {kind : Kind} (hkind : kind ≠ .list) :
    Encounters allowed (Decoder.messageBody levels value kind)
      (.body allowed levels inner (.known kind)) := by
  cases kind
  case list => exact absurd rfl hkind
  case invocation => exact (invocationBody hreads hvalue).before fun _ => .pure _
  case reply => exact (replyBody hvalue).before fun _ => .pure _
  case request => exact (requestBody hreads hvalue).before fun _ => .pure _
  case results => exact (resultsBody hreads hvalue).before fun _ => .pure _
  case handshake => exact plain (plain_handshakeBody.bind fun _ => .pure _)
  case chunk => exact plain (plain_chunkBody.bind fun _ => .pure _)
  case exception => exact plain (plain_exceptionBody.bind fun _ => .pure _)
  case logonRequest => exact plain (plain_logonRequestBody.bind fun _ => .pure _)
  case logonResult => exact plain (plain_logonResultBody.bind fun _ => .pure _)
  all_goals exact plain (.throw ⟨rfl, nofun⟩)

theorem valueBody (kind : Kind) : Encounters allowed (Decoder.valueBody levels value kind)
    (.body allowed levels inner (.known kind)) := by
  cases kind
  case null => exact plain (.pure _)
  case boolean => exact plain ((plain_read plain_boolean).bind fun _ => .pure _)
  case integer => exact plain ((plain_read plain_int32).bind fun _ => .pure _)
  case long => exact plain ((plain_read plain_int64).bind fun _ => .pure _)
  case double => exact plain ((plain_read plain_double).bind fun _ => .pure _)
  case string => exact plain ((plain_read plain_string).bind fun _ => .pure _)
  case binary => exact plain ((plain_read plain_bytes).bind fun _ => .pure _)
  case list => exact (countedValues hreads hvalue).before fun _ => .pure _
  case streamReference => exact plain (plain_lob.bind fun _ => .pure _)
  case lobReference => exact plain (plain_reference.bind fun _ => .pure _)
  all_goals exact (messageBody hreads hvalue (by decide)).before fun _ => .pure _

end Bodies

/-- A decoder with some levels left refuses the names inside values of so many levels. -/
theorem valueWithin (levels : Nat) :
    Encounters allowed (Decoder.valueWithin levels) (.value allowed levels) := by
  induction levels with
  | zero => exact tag.before fun met => .throw ⟨rfl, nofun⟩
  | succ levels ih =>
    apply bind Reads.tag tag
    rintro (kind | name)
    · exact (valueBody (Reads.valueWithin levels) ih kind).deeper
    · exact ((countedValues (Reads.valueWithin levels) ih).before fun parts => .pure _).deeper

theorem message (levels : Nat) : Encounters allowed
    (Decoder.valueWithin levels >>= fun v =>
      match v with
      | .message m => return m
      | other => MonadExcept.throw (.unexpectedMessage "message" other.typeName))
    (.value allowed levels) := by
  apply (valueWithin levels).before
  intro v
  cases v with
  | message m => exact .pure m
  | _ => exact .throw ⟨rfl, nofun⟩

end Encounters

namespace Appendix

theorem malformed_of_checkTotal {total max : Nat} {fault : Fault}
    (h : checkTotal total max = .error fault) : fault.Malformed := by
  unfold checkTotal at h
  split_ifs at h
  cases h
  exact ⟨rfl, nofun⟩

theorem malformed_of_readPieces {max used pos : Nat} {before : List Bytes} {bytes : Bytes}
    {fault : Fault} (h : (readPieces max used before pos bytes).1 = .error fault) :
    fault.Malformed := by
  fun_induction readPieces max used before pos bytes with
  | case1 => cases h
  | case2 used before pos high low rest length hpos fault' hcheck =>
    cases h
    exact malformed_of_checkTotal hcheck
  | case3 _ _ _ _ _ _ _ _ _ _ ih => exact ih h
  | case4 | case5 =>
    cases h
    exact Fault.malformed_underflow ..

theorem malformed_of_readAll {max n : Nat} {before : List Bytes} {p : Progress} {fault : Fault}
    (h : (readAll max n before p).1 = .error fault) : fault.Malformed := by
  induction n generalizing before p with
  | zero => cases h
  | succ n ih =>
    rw [readAll] at h
    split at h
    · next hread =>
      cases h
      exact malformed_of_readPieces (congrArg Prod.fst hread)
    · exact ih h

end Appendix

namespace Frame

open Format

variable {allowed : AllowList} {max : Nat} {content frame : Bytes}

theorem malformed_of_checkLength {length : Nat} {fault : Fault}
    (h : checkLength length max = .error fault) : fault.Malformed := by
  unfold checkLength at h
  split_ifs at h <;> cases h <;> exact ⟨rfl, nofun⟩

theorem plain_payload (max : Nat) : Plain (payload max) := by
  apply Reader.plain_uint32.bind
  intro length
  apply Faults.bind _ fun _ => Reader.plain_take _
  exact fun reader fault h => malformed_of_checkLength h

/-- Behind a version, a payload fails with what its message fails with. -/
theorem decodePayload_of_message {fault : Fault} {body : Bytes}
    (h : (Decoder.message ⟨⟨body, 1⟩, #[], 0, allowed⟩).1 = .error fault) :
    decodePayload allowed (version :: body) = .error fault := by
  have hversion : (liftM Reader.uint8 : Decode UInt8)
      (Decoder.ofBytes (version :: body) allowed) =
        (.ok version, ⟨⟨body, 1⟩, #[], 0, allowed⟩) :=
    (Reads.uint8 ..).mpr ⟨[version], body, [], rfl, ⟨rfl, rfl⟩, rfl⟩
  unfold decodePayload
  dsimp only
  rw [bind_of_ok hversion, if_pos rfl]
  split
  · next hmessage =>
    rw [hmessage] at h
    cases h
    rfl
  · next hmessage =>
    rw [hmessage] at h
    cases h

/-- A payload fails with what its message fails with, or else it is malformed around that. -/
theorem malformed_or_of_decodePayload {fault : Fault}
    (h : decodePayload allowed content = .error fault) : fault.Malformed ∨
      ∃ body, content = version :: body ∧
        (Decoder.message ⟨⟨body, 1⟩, #[], 0, allowed⟩).1 = .error fault := by
  unfold decodePayload at h
  dsimp only at h
  split at h
  · next hbody =>
    cases h
    rcases fst_bind_eq_error_iff.mp (congrArg Prod.fst hbody) with
      hfirst | ⟨actual, d, hfirst, hsecond⟩
    · exact .inl (Decoder.plain_read Reader.plain_uint8 _ _ hfirst)
    · obtain ⟨_, body, _, rfl, ⟨rfl, rfl⟩, rfl⟩ := (Reads.uint8 ..).mp hfirst
      split_ifs at hsecond with hactual
      · exact .inr ⟨body, by rw [hactual]; rfl, hsecond⟩
      · cases hsecond
        exact .inl ⟨rfl, nofun⟩
  · split at h
    · next hfinish =>
      cases h
      unfold Decoder.finish at hfinish
      split at hfinish <;> cases hfinish
      exact .inl ⟨rfl, nofun⟩
    · cases h

theorem corrupt_of_decodePayload {fault : Fault}
    (h : decodePayload allowed content = .error fault) : fault.classOf = .protocolCorruption := by
  rcases malformed_or_of_decodePayload h with hmalformed | ⟨body, rfl, hfault⟩
  · exact hmalformed.1
  · rw [Reads.message_apply] at hfault
    have hmessage : Encounters allowed _ _ := Encounters.message Decoder.maxDepth
    exact hmessage.corrupt _ _ hfault

/-- A payload is refused for the names that its message comes to. -/
theorem decodePayload_eq_disallowed_iff {name : String} :
    decodePayload allowed content = .error (.disallowedType name) ↔
      (∃ body, content = version :: body ∧
        Encounter.value allowed Decoder.maxDepth 0 body name) ∧
      allowed.resolve name = .error (.disallowedType name) := by
  have hmessage : ∀ body, (Decoder.message ⟨⟨body, 1⟩, #[], 0, allowed⟩).1 =
      .error (.disallowedType name) ↔ Encounter.value allowed Decoder.maxDepth 0 body name ∧
        allowed.resolve name = .error (.disallowedType name) := by
    intro body
    rw [Reads.message_apply]
    exact (Encounters.message Decoder.maxDepth).refused body 1 #[] 0 name
  constructor
  · intro h
    -- what is wrong around the message is never a name
    rcases malformed_or_of_decodePayload h with hmalformed | ⟨body, rfl, hfault⟩
    · exact absurd rfl (hmalformed.2 name)
    · obtain ⟨hencounter, hresolve⟩ := (hmessage body).mp hfault
      exact ⟨⟨body, rfl, hencounter⟩, hresolve⟩
  · rintro ⟨⟨body, rfl, hencounter⟩, hresolve⟩
    exact decodePayload_of_message ((hmessage body).mpr ⟨hencounter, hresolve⟩)

end Frame

end QueryClient

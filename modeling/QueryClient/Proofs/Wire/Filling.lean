import QueryClient.Proofs.Wire.Delivery
import QueryClient.Proofs.Wire.Grammar

/-!
# What a spelling may stand for

A body announces large objects without their content. Whatever contents follow it, one for each of
them, there is a message with these contents that is sent as the body says, and whose parts arrive
as they were.
-/

namespace QueryClient

open Format

variable {α : Type} {allowed : AllowList} {f g : Format} {fs : List Format} {p : Prop}
  {possible possible' : List Bytes → Prop}

namespace Format

/-- A format that announces nothing. -/
def Silent (f : Format) : Prop :=
  ∀ announced bytes kinds, f announced bytes kinds → kinds = []

theorem Silent.given (hf : f.Silent) : (f.given p).Silent :=
  fun announced bytes kinds h => hf announced bytes kinds h.2

theorem Silent.seq (hf : f.Silent) (hg : g.Silent) : (seq f g).Silent := by
  rintro announced _ _ ⟨first, kinds₁, second, kinds₂, hfirst, hsecond, -, rfl⟩
  rw [hf _ _ _ hfirst, hg _ _ _ hsecond]
  rfl

theorem silent_any {f : α → Format} (hf : ∀ a, (f a).Silent) : (any f).Silent :=
  fun announced bytes kinds ⟨a, h⟩ => hf a announced bytes kinds h

theorem silent_fields (hfs : ∀ f ∈ fs, f.Silent) : (fields fs).Silent := by
  induction fs with
  | nil =>
    rintro announced _ _ ⟨-, rfl⟩
    rfl
  | cons f fs ih =>
    rw [List.forall_mem_cons] at hfs
    exact hfs.1.seq (ih hfs.2)

@[simp] theorem silent_exactly (content : Bytes) : (exactly content).Silent :=
  fun _ _ _ h => h.2

@[simp] theorem silent_byte (n : UInt8) : (byte n).Silent := silent_exactly _

@[simp] theorem silent_word (width n : Nat) : (word width n).Silent := silent_exactly _

@[simp] theorem silent_uint64 (n : UInt64) : (uint64 n).Silent := silent_exactly _

@[simp] theorem silent_int64 (n : Int64) : (int64 n).Silent := silent_exactly _

@[simp] theorem silent_uint32 (n : UInt32) : (uint32 n).Silent := silent_exactly _

@[simp] theorem silent_boolean (b : Bool) : (boolean b).Silent := silent_exactly _

@[simp] theorem silent_lengthBytes (content : Bytes) : (lengthBytes content).Silent :=
  (silent_fields (by simp)).given

@[simp] theorem silent_text (s : String) : (text s).Silent := silent_lengthBytes _

@[simp] theorem silent_shortText (s : String) : (shortText s).Silent :=
  (silent_fields (by simp)).given

@[simp] theorem silent_optional {f : α → Format} (hf : ∀ a, (f a).Silent) (o : Option α) :
    (optional f o).Silent := by
  cases o with
  | none => exact silent_boolean false
  | some a => exact silent_fields (by simp [hf])

@[simp] theorem silent_counted {f : α → Format} (hf : ∀ a, (f a).Silent) (items : List α) :
    (counted (items.map f)).Silent :=
  (silent_fields (by simp [hf])).given

@[simp] theorem silent_tag (t : Tag) : (tag allowed t).Silent := by
  have hname : ∀ name, (fields [byte Kind.byName, shortText name]).Silent :=
    fun name => silent_fields (by simp)
  cases t with
  | known kind =>
    rintro announced bytes kinds (h | h)
    · exact h.2
    · exact hname _ _ _ _ h
  | foreign name => exact (hname name).given

@[simp] theorem silent_timeout (t : Option Duration) : (timeout t).Silent :=
  silent_any fun n => (silent_uint64 n).given

@[simp] theorem silent_remoteLength (length : Option UInt64) : (remoteLength length).Silent :=
  silent_any fun n => (silent_int64 n).given

@[simp] theorem silent_column (c : Column) : (column c).Silent :=
  silent_fields (by simp)

@[simp] theorem silent_property (entry : String × String) : (property entry).Silent :=
  silent_fields (by simp)

theorem silent_reference (r : LobReference) : (reference r).Silent :=
  silent_fields (by simp)

theorem silent_exceptionBody (e : ServerException) : (exceptionBody e).Silent :=
  silent_fields (by simp)

@[simp] theorem silent_exception (e : ServerException) : (exception allowed e).Silent :=
  (silent_tag _).seq (silent_exceptionBody e)

@[simp] theorem silent_optionalException (o : Option ServerException) :
    (optionalException allowed o).Silent := by
  cases o with
  | none =>
    change (tag allowed (.known .null)).Silent
    exact silent_tag _
  | some e => exact silent_exception e

theorem fields_of_mem {announced : Nat} {bytes : Bytes} {kinds : List LobKind}
    (h : fields fs announced bytes kinds) (hf : f ∈ fs) :
    ∃ announced bytes kinds, f announced bytes kinds := by
  induction fs generalizing announced bytes kinds with
  | nil => cases hf
  | cons f' fs ih =>
    obtain ⟨first, kinds₁, second, kinds₂, hfirst, hsecond, -, -⟩ := h
    rcases List.mem_cons.mp hf with rfl | hf
    · exact ⟨announced, first, kinds₁, hfirst⟩
    · exact ih hsecond hf

end Format

/-- A length that is read is one that arrives as it was. -/
theorem sentLength_of_remoteLength {length : Option UInt64} {announced : Nat} {bytes : Bytes}
    {kinds : List LobKind} (h : remoteLength length announced bytes kinds) :
    sentLength length = length := by
  obtain ⟨n, rfl, -⟩ := h
  by_cases hn : n < 0
  · rw [if_pos hn]
    rfl
  · rw [if_neg hn, sentLength, Option.map_some, Option.getD_some, Int64.toInt64_toUInt64, if_neg hn]

theorem sentTimeout_of_timeout {duration : Option Duration} {announced : Nat} {bytes : Bytes}
    {kinds : List LobKind} (h : timeout duration announced bytes kinds) :
    sentTimeout duration = duration := by
  obtain ⟨n, rfl, -⟩ := h
  by_cases hn : n.toNat = 0
  · rw [if_pos hn]
    rfl
  · rw [if_neg hn, sentTimeout_some (Nat.pos_of_ne_zero hn) n.toNat_lt]

/-- What is possible of any contents that follow a format, one for each object it announces. -/
def Fills (f : Format) (possible : List Bytes → Prop) : Prop :=
  ∀ announced bytes kinds contents, f announced bytes kinds → kinds.length = contents.length →
    possible contents

/-- A value that may have been sent where this one was spelled and these contents followed. -/
def Value.Filled (allowed : AllowList) (v : Value) (contents : List Bytes) : Prop :=
  ∃ sent : Value, sent.asSent = v ∧ sent.contents = contents ∧
    ∀ part ∈ sent.parts, part.Exact ∧ part.Permitted allowed

def Message.Filled (allowed : AllowList) (m : Message) (contents : List Bytes) : Prop :=
  ∃ sent : Message, sent.asSent = m ∧ sent.contents = contents ∧
    ∀ part ∈ sent.parts, part.Exact ∧ part.Permitted allowed

namespace Fills

theorem mono (hf : Fills f possible) (h : ∀ contents, possible contents → possible' contents) :
    Fills f possible' :=
  fun announced bytes kinds contents hbytes hlength =>
    h contents (hf announced bytes kinds contents hbytes hlength)

theorem given (hf : p → Fills f possible) : Fills (f.given p) possible :=
  fun announced bytes kinds contents h => hf h.1 announced bytes kinds contents h.2

/-- What every spelling says may be assumed. -/
theorem assuming (hp : ∀ announced bytes kinds, f announced bytes kinds → p)
    (hf : p → Fills f possible) : Fills f possible :=
  fun announced bytes kinds contents h =>
    hf (hp announced bytes kinds h) announced bytes kinds contents h

theorem seq (hf : Fills f possible) (hg : Fills g possible') : Fills (seq f g) fun contents =>
    ∃ first second, contents = first ++ second ∧ possible first ∧ possible' second := by
  rintro announced _ _ contents ⟨first, kinds₁, second, kinds₂, hfirst, hsecond, rfl, rfl⟩ hlength
  rw [List.length_append] at hlength
  refine ⟨contents.take kinds₁.length, contents.drop kinds₁.length,
    (List.take_append_drop ..).symm, hf _ _ _ _ hfirst ?_, hg _ _ _ _ hsecond ?_⟩
  · rw [List.length_take]
    omega
  · rw [List.length_drop]
    omega

theorem silent (hf : f.Silent) : Fills f (· = []) := by
  intro announced bytes kinds contents h hlength
  rw [hf _ _ _ h] at hlength
  exact List.eq_nil_of_length_eq_zero hlength.symm

/-- All contents are those of what stands behind a format that announces nothing. -/
theorem behind (hf : f.Silent) (hg : Fills g possible) : Fills (Format.seq f g) possible := by
  refine ((silent hf).seq hg).mono ?_
  rintro _ ⟨_, second, rfl, rfl, hsecond⟩
  exact hsecond

/-- All contents are those of what stands before a format that announces nothing. -/
theorem before (hf : Fills f possible) (hg : g.Silent) : Fills (Format.seq f g) possible := by
  refine (hf.seq (silent hg)).mono ?_
  rintro _ ⟨first, _, rfl, hfirst, rfl⟩
  rwa [List.append_nil]

theorem last (hf : Fills f possible) : Fills (fields [f]) possible := by
  rwa [fields_singleton]

/-- Things one after another, each from its own contents. -/
theorem all {f : α → Format} {send : α → α} {kept : α → List Bytes} {good : α → Prop}
    {items : List α} (h : ∀ a ∈ items, Fills (f a) fun contents =>
      ∃ sent, send sent = a ∧ kept sent = contents ∧ good sent) :
    Fills (fields (items.map f)) fun contents => ∃ sent : List α, sent.map send = items ∧
      sent.flatMap kept = contents ∧ ∀ a ∈ sent, good a := by
  induction items with
  | nil =>
    refine (silent (silent_exactly [])).mono ?_
    rintro _ rfl
    exact ⟨[], rfl, rfl, nofun⟩
  | cons a items ih =>
    rw [List.forall_mem_cons] at h
    refine (h.1.seq (ih h.2)).mono ?_
    rintro _ ⟨_, _, rfl, ⟨first, rfl, rfl, hfirst⟩, rest, rfl, rfl, hrest⟩
    exact ⟨first :: rest, rfl, rfl, List.forall_mem_cons.mpr ⟨hfirst, hrest⟩⟩

theorem counted (hf : Fills (fields fs) possible) : Fills (Format.counted fs) possible :=
  given fun _ => behind (silent_word _ _) hf

/-- Values behind their number. -/
theorem values {items : List Value}
    (h : ∀ v ∈ items, Fills (Format.value allowed v) (v.Filled allowed)) :
    Fills (Format.counted (each allowed items)) fun contents => ∃ sent : List Value,
      sent.map Value.asSent = items ∧ sent.flatMap Value.contents = contents ∧
        ∀ v ∈ sent, ∀ part ∈ v.parts, part.Exact ∧ part.Permitted allowed := by
  rw [each_eq]
  exact counted (all h)

/-- Rows behind their number. -/
theorem countedRows {cells : List Row}
    (h : ∀ row ∈ cells, ∀ v ∈ row, Fills (Format.value allowed v) (v.Filled allowed)) :
    Fills (Format.counted (rows allowed cells)) fun contents => ∃ sent : List Row,
      sent.map (fun row => row.map Value.asSent) = cells ∧
        (sent.flatMap fun row => row.flatMap Value.contents) = contents ∧
        ∀ row ∈ sent, ∀ v ∈ row, ∀ part ∈ v.parts, part.Exact ∧ part.Permitted allowed := by
  rw [rows_eq]
  apply counted (all fun row hrow => ?_)
  have hvalues := values (h row hrow)
  rwa [each_eq] at hvalues

/-- A value without anything inside it that is sent as it is. -/
theorem plain {v : Value} (hbody : (body allowed v).Silent) (hsent : v.asSent = v)
    (hparts : v.parts = [v]) (hcontent : v.content? = none) (hexact : v.Exact)
    (hpermitted : v.Permitted allowed) : Fills (Format.value allowed v) (v.Filled allowed) := by
  refine (silent ((silent_tag _).seq hbody)).mono ?_
  rintro _ rfl
  refine ⟨v, hsent, ?_, ?_⟩
  · rw [Value.contents, hparts, List.filterMap_cons_none hcontent, List.filterMap_nil]
  · rw [hparts, List.forall_mem_singleton]
    exact ⟨hexact, hpermitted⟩

/-- A message without values. -/
theorem plainMessage {m : Message} (hbody : (messageBody allowed m).Silent) (hsent : m.asSent = m)
    (hparts : m.parts = [.message m]) (hexact : (Value.message m).Exact) :
    Fills (message allowed m) (m.Filled allowed) := by
  refine (silent ((silent_tag _).seq hbody)).mono ?_
  rintro _ rfl
  refine ⟨m, hsent, ?_, ?_⟩
  · rw [Message.contents, hparts]
    rfl
  · rw [hparts, List.forall_mem_singleton]
    exact ⟨hexact, trivial⟩

/-- Whatever is spelled may have been sent, with any contents. -/
theorem hereditary : Hereditary (fun v => Fills (Format.value allowed v) (v.Filled allowed))
    (fun m => Fills (message allowed m) (m.Filled allowed)) where
  null := plain (silent_exactly _) rfl rfl rfl trivial trivial
  boolean _ := plain (silent_boolean _) rfl rfl rfl trivial trivial
  integer _ := plain (silent_exactly _) rfl rfl rfl trivial trivial
  long _ := plain (silent_int64 _) rfl rfl rfl trivial trivial
  double _ := plain (silent_uint64 _) rfl rfl rfl trivial trivial
  string _ := plain (silent_text _) rfl rfl rfl trivial trivial
  binary _ := plain (silent_lengthBytes _) rfl rfl rfl trivial trivial
  list items ih := by
    refine behind (silent_tag _) ?_
    rw [body]
    refine (values ih).mono ?_
    rintro _ ⟨sent, rfl, rfl, hgood⟩
    refine ⟨.list sent, ?_, Value.contents_list sent, ?_⟩
    · rw [Value.asSent, asSentEach_eq]
    · rw [Value.parts, List.forall_mem_cons, forall_partsOfEach]
      exact ⟨⟨trivial, trivial⟩, hgood⟩
  lob l := by
    obtain ⟨kind, content⟩ := l
    refine behind (silent_tag _) ?_
    rw [body]
    refine given ?_
    rintro rfl
    refine behind (silent_byte _) ?_
    rw [fields_singleton]
    rintro announced _ _ contents ⟨-, -, rfl⟩ hlength
    obtain ⟨content, rfl⟩ := List.length_eq_one_iff.mp hlength.symm
    exact ⟨.lob ⟨kind, some content⟩, rfl, rfl, List.forall_mem_singleton.mpr ⟨rfl, trivial⟩⟩
  reference r := by
    obtain ⟨id, kind, length⟩ := r
    refine assuming (p := sentLength length = length) ?_ fun hlength =>
      plain (silent_reference _) ?_ rfl rfl hlength trivial
    · rintro _ _ _ ⟨_, _, _, _, -, hbody, -, -⟩
      rw [body] at hbody
      obtain ⟨_, _, _, hread⟩ := fields_of_mem (f := remoteLength length) hbody (by simp)
      exact sentLength_of_remoteLength hread
    · rw [Value.asSent, hlength]
  message m ih := by
    rw [value_message]
    refine ih.mono ?_
    rintro _ ⟨sent, rfl, rfl, hgood⟩
    exact ⟨.message sent, by rw [Value.asSent], rfl, hgood⟩
  named typeName parts ih := by
    refine assuming (p := allowed.resolve typeName = .ok none) ?_ fun hname =>
      behind (silent_tag _) ((values ih).mono ?_)
    · rintro _ _ _ ⟨_, _, _, _, ⟨hname, -⟩, -⟩
      exact hname
    rintro _ ⟨sent, rfl, rfl, hgood⟩
    refine ⟨.named typeName sent, ?_, Value.contents_named typeName sent, ?_⟩
    · rw [Value.asSent, asSentEach_eq]
    · rw [Value.parts, List.forall_mem_cons, forall_partsOfEach]
      exact ⟨⟨trivial, hname⟩, hgood⟩
  handshake _ := plainMessage (silent_fields (by simp)) rfl rfl trivial
  invocation i ih := by
    obtain ⟨key, service, method, args⟩ := i
    refine behind (silent_tag _) ?_
    rw [messageBody]
    refine behind (silent_uint64 _) (behind (silent_byte _) (behind (silent_shortText _)
      (last ((values ih).mono ?_))))
    rintro _ ⟨sent, rfl, rfl, hgood⟩
    refine ⟨.invocation ⟨key, service, method, sent⟩, ?_, Message.contents_invocation _, ?_⟩
    · rw [Message.asSent, asSentEach_eq]
    · rw [Message.parts, List.forall_mem_cons, forall_partsOfEach]
      exact ⟨⟨trivial, trivial⟩, hgood⟩
  answer key v ih := by
    refine behind (silent_tag _) ?_
    rw [messageBody]
    refine behind (silent_uint64 _) (behind (silent_boolean _) (last (ih.mono ?_)))
    rintro _ ⟨sent, rfl, rfl, hgood⟩
    refine ⟨.reply ⟨key, .ok sent⟩, by rw [Message.asSent], rfl, ?_⟩
    rw [Message.parts, List.forall_mem_cons]
    exact ⟨⟨trivial, trivial⟩, hgood⟩
  failure key e := plainMessage (by rw [messageBody]; exact silent_fields (by simp)) rfl rfl trivial
  request r ih := by
    obtain ⟨executionId, sql, parameters, fetchSize, cursorType, rowLimit, queryTimeout⟩ := r
    refine behind (silent_tag _) ?_
    rw [messageBody]
    refine assuming (p := sentTimeout queryTimeout = queryTimeout) ?_ fun htimeout => ?_
    · intro _ _ _ hbody
      obtain ⟨_, _, _, hread⟩ := fields_of_mem (f := timeout queryTimeout) hbody (by simp)
      exact sentTimeout_of_timeout hread
    refine behind (silent_int64 _) (behind (silent_text _) (before ((values ih).mono ?_)
      (silent_fields (by simp))))
    rintro _ ⟨sent, rfl, rfl, hgood⟩
    refine ⟨.request ⟨executionId, sql, sent, fetchSize, cursorType, rowLimit, queryTimeout⟩, ?_,
      Message.contents_request _, ?_⟩
    · rw [Message.asSent, asSentEach_eq, htimeout]
    · rw [Message.parts, List.forall_mem_cons, forall_partsOfEach]
      exact ⟨⟨htimeout, trivial⟩, hgood⟩
  results r ih := by
    obtain ⟨firstRow, lastRow, finalRow, columns, cells, updateCount, warnings, failure⟩ := r
    refine behind (silent_tag _) ?_
    rw [messageBody]
    refine behind (silent_int64 _) (behind (silent_int64 _) (behind (silent_int64 _)
      (behind (silent_counted silent_column _) (before ((countedRows ih).mono ?_)
        (silent_fields (by simp))))))
    rintro _ ⟨sent, rfl, rfl, hgood⟩
    refine ⟨.results ⟨firstRow, lastRow, finalRow, columns, sent, updateCount, warnings, failure⟩,
      ?_, Message.contents_results _, ?_⟩
    · rw [Message.asSent, asSentRows_eq]
    · rw [Message.parts, List.forall_mem_cons, forall_partsOfRows]
      exact ⟨⟨trivial, trivial⟩, hgood⟩
  chunk _ := plainMessage (silent_fields (by simp)) rfl rfl trivial
  exception e := plainMessage (silent_exceptionBody e) rfl rfl trivial
  logonRequest _ := plainMessage (silent_fields (by simp)) rfl rfl trivial
  logonResult _ := plainMessage (silent_fields (by simp)) rfl rfl trivial

end Fills

end QueryClient

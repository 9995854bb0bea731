import QueryClient.Proofs.Value
import QueryClient.Proofs.Wire.Primitives

/-!
# Decoding follows the grammar

A decoder with some levels left reads exactly the values that the grammar spells and that have at
most so many levels. It follows from one lemma for each part of a body, by induction on the levels.
-/

namespace QueryClient

open Format Operation

/-- Where codes are read back, only its own code stands for a thing. -/
theorem find_code_eq_some_iff {α : Type} {codeOf : α → UInt8} (all : List α)
    (hall : ∀ a, all.find? (codeOf · == codeOf a) = some a) {code : UInt8} {a : α} :
    all.find? (codeOf · == code) = some a ↔ code = codeOf a := by
  constructor
  · intro h
    have hcode := List.find?_some h
    exact (beq_iff_eq.mp hcode).symm
  · rintro rfl
    exact hall a

theorem LobKind.ofCode_eq_ok_iff {code : UInt8} {kind : LobKind} :
    LobKind.ofCode code = .ok kind ↔ code = kind.code := by
  rw [← find_code_eq_some_iff LobKind.all (by intro kind; cases kind <;> rfl)]
  unfold LobKind.ofCode
  cases LobKind.all.find? (·.code == code) <;> simp

theorem AuthType.ofCode_eq_ok_iff {code : UInt8} {authType : AuthType} :
    AuthType.ofCode code = .ok authType ↔ code = authType.code := by
  rw [← find_code_eq_some_iff AuthType.all (by intro a; cases a <;> rfl)]
  unfold AuthType.ofCode
  cases AuthType.all.find? (·.code == code) <;> simp

theorem CursorType.ofCode_eq_ok_iff {code : UInt8} {cursorType : CursorType} :
    CursorType.ofCode code = .ok cursorType ↔ code = cursorType.code := by
  rw [← find_code_eq_some_iff CursorType.all (by intro c; cases c <;> rfl)]
  unfold CursorType.ofCode
  cases CursorType.all.find? (·.code == code) <;> simp

theorem Service.ofCode_eq_ok_iff {code : UInt8} {service : Service} :
    Service.ofCode code = .ok service ↔ code = service.code := by
  rw [← find_code_eq_some_iff Service.all (by intro s; cases s <;> rfl)]
  unfold Service.ofCode
  cases Service.all.find? (·.code == code) <;> simp

theorem Kind.ofCode_eq_ok_iff {code : UInt8} {kind : Kind} :
    Kind.ofCode code = .ok kind ↔ code = kind.code := by
  rw [← find_code_eq_some_iff Kind.all Kind.ofCode?_code]
  unfold Kind.ofCode Kind.ofCode?
  cases Kind.all.find? (·.code == code) <;> simp

theorem Kind.ofName?_eq_some_iff {name : String} {kind : Kind} :
    Kind.ofName? name = some kind ↔ name = kind.name := by
  constructor
  · intro h
    have hname := List.find?_some h
    exact (beq_iff_eq.mp hname).symm
  · rintro rfl
    exact Kind.ofName?_name kind

/-- Only the name of a kind stands for that kind. -/
theorem AllowList.resolve_eq_known_iff {allowed : AllowList} {name : String} {kind : Kind} :
    allowed.resolve name = .ok (some kind) ↔ name = kind.name := by
  rw [← Kind.ofName?_eq_some_iff]
  unfold AllowList.resolve
  cases Kind.ofName? name with
  | some other => simp
  | none =>
    dsimp only
    split_ifs <;> simp

/-- A name fails to resolve only if it is neither registered nor permitted. -/
theorem AllowList.resolve_eq_error_iff {allowed : AllowList} {name : String} {fault : Fault} :
    allowed.resolve name = .error fault ↔
      fault = .disallowedType name ∧ Kind.ofName? name = none ∧ allowed.permits name = false := by
  unfold AllowList.resolve
  cases Kind.ofName? name with
  | some kind => simp
  | none =>
    dsimp only
    split_ifs with hpermits
    · simp [hpermits]
    · simp [hpermits, eq_comm]

/-- A tag as it is read: a code, and behind the code that announces a name that name. -/
def Format.tagAsRead (allowed : AllowList) (t : Tag) : Format := any fun code =>
  seq (byte code) (if code = Kind.byName then
      any fun name => seq (shortText name) (any fun kind? => (exactly []).given
        (t = kind?.elim (.foreign name) .known ∧ allowed.resolve name = .ok kind?))
    else any fun kind => (exactly []).given (t = .known kind ∧ Kind.ofCode code = .ok kind))

theorem Format.tagAsRead_eq (allowed : AllowList) (t : Tag) :
    tagAsRead allowed t = tag allowed t := by
  funext announced bytes kinds
  apply propext
  constructor
  · rintro ⟨code, hseq⟩
    obtain ⟨rest, rfl, h⟩ := seq_exactly.mp hseq
    clear hseq
    by_cases hcode : code = Kind.byName
    · rw [if_pos hcode] at h
      obtain ⟨name, first, kinds₁, _, _, hname, ⟨kind?, ⟨rfl, hresolve⟩, rfl, rfl⟩, rfl, rfl⟩ := h
      have hfields : fields [byte Kind.byName, shortText name] announced
          ([code] ++ (first ++ [])) (kinds₁ ++ []) := by
        rw [fields_cons, fields_singleton, hcode, List.append_nil, List.append_nil]
        exact seq_exactly.mpr ⟨first, rfl, hname⟩
      cases kind? with
      | some kind =>
        cases AllowList.resolve_eq_known_iff.mp hresolve
        exact .inr hfields
      | none => exact ⟨hresolve, hfields⟩
    · rw [if_neg hcode] at h
      obtain ⟨kind, ⟨rfl, hkind⟩, rfl, rfl⟩ := h
      cases Kind.ofCode_eq_ok_iff.mp hkind
      exact .inl ⟨rfl, rfl⟩
  · -- a name is read back as what it resolves to
    have hnamed : ∀ name kind?, allowed.resolve name = .ok kind? →
        t = kind?.elim (.foreign name) .known →
        fields [byte Kind.byName, shortText name] announced bytes kinds →
        tagAsRead allowed t announced bytes kinds := by
      intro name kind? hresolve ht hfields
      obtain ⟨rest, rfl, hname⟩ := seq_exactly.mp hfields
      rw [fields_singleton] at hname
      refine ⟨Kind.byName, seq_exactly.mpr ⟨rest, rfl, ?_⟩⟩
      rw [if_pos rfl]
      exact ⟨name, rest, kinds, [], [], hname, ⟨kind?, ⟨ht, hresolve⟩, rfl, rfl⟩,
        (List.append_nil _).symm, (List.append_nil _).symm⟩
    cases t with
    | known kind =>
      rintro (⟨rfl, rfl⟩ | hfields)
      · refine ⟨kind.code, seq_exactly.mpr ⟨[], rfl, ?_⟩⟩
        rw [if_neg (Kind.code_ne_byName kind)]
        exact ⟨kind, ⟨rfl, Kind.ofCode_eq_ok_iff.mpr rfl⟩, rfl, rfl⟩
      · exact hnamed _ _ (AllowList.resolve_eq_known_iff.mpr rfl) rfl hfields
    | foreign name =>
      rintro ⟨hresolve, hfields⟩
      exact hnamed _ _ hresolve rfl hfields

namespace Reads

variable {α γ : Type} {allowed : AllowList} {f : α → Format} {p : γ → Prop}

theorem ofExcept {outcome : Except Fault α} :
    Reads allowed (liftM outcome) fun a => (fields []).given (outcome = .ok a) := by
  cases outcome with
  | ok a => exact done (by intro a'; rw [Except.ok.injEq, eq_comm])
  | error fault => exact throw fault (by intro a h; cases h)

/-- A code that stands for one of a few things. -/
theorem coded {ofCode : UInt8 → Except Fault α} {code : α → UInt8}
    (h : ∀ {n a}, ofCode n = .ok a ↔ n = code a) :
    Reads allowed (Decoder.coded ofCode) fun a => byte (code a) := by
  rw [Decoder.coded]
  refine congr (f := fun a => (fields [byte (code a)]).given True) ?_ ?_
  · apply uint8.field code
    intro n
    apply ofExcept.congr
    intro a
    rw [h, true_and]
  · intro a
    rw [given_true, fields_singleton]

/-- What a read does may depend on the decoder, if what it reads does not. -/
theorem asking {g : Decoder → Decode α}
    (h : ∀ d : Decoder, d.allowed = allowed → Reads allowed (g d) f) :
    Reads allowed (getThe Decoder >>= g) f := by
  intro bytes pos slots depth a e
  have happly : ∀ d : Decoder, (getThe Decoder >>= g) d = g d d := fun d => bind_of_ok rfl
  rw [happly]
  exact h _ rfl bytes pos slots depth a e

theorem tag : Reads allowed Decoder.tag (Format.tag allowed) := by
  rw [Decoder.tag]
  refine congr (f := fun t => any fun code => seq (byte code) (if code = Kind.byName then
      any fun name => seq (shortText name) (any fun kind? =>
        seq ((fields []).given (allowed.resolve name = .ok kind?))
          ((fields []).given (t = kind?.elim (.foreign name) .known)))
    else any fun kind => seq ((fields []).given (Kind.ofCode code = .ok kind))
      ((fields []).given (t = .known kind)))) ?_ ?_
  · apply uint8.bind
    intro code
    split_ifs
    · apply shortString.bind
      intro name
      apply asking
      rintro ⟨reader, slots, depth, _⟩ rfl
      apply ofExcept.bind
      rintro (_ | kind)
      · exact done fun t => Iff.rfl
      · exact done fun t => Iff.rfl
    · apply ofExcept.bind
      intro kind
      exact done fun t => Iff.rfl
  · intro t
    rw [← tagAsRead_eq, tagAsRead]
    simp only [seq_given, given_seq, fields_nil, exactly_nil_seq, given_given]

theorem deeper {r : Decode α} (hr : Reads allowed r f) : Reads allowed (Decoder.deeper r) f := by
  intro bytes pos slots depth a e
  have happly : Decoder.deeper r ⟨⟨bytes, pos⟩, slots, depth, allowed⟩ =
      ((r ⟨⟨bytes, pos⟩, slots, depth + 1, allowed⟩).1,
        { (r ⟨⟨bytes, pos⟩, slots, depth + 1, allowed⟩).2 with
          depth := (r ⟨⟨bytes, pos⟩, slots, depth + 1, allowed⟩).2.depth - 1 }) := rfl
  rw [happly]
  constructor
  · intro h
    rcases hread : r ⟨⟨bytes, pos⟩, slots, depth + 1, allowed⟩ with ⟨_ | a', d⟩
    · rw [hread] at h
      cases h
    · rw [hread] at h
      cases h
      obtain ⟨taken, rest, kinds, rfl, hf, rfl⟩ := (hr ..).mp hread
      exact ⟨taken, rest, kinds, rfl, hf, rfl⟩
  · rintro ⟨taken, rest, kinds, rfl, hf, rfl⟩
    rw [(hr ..).mpr ⟨taken, rest, kinds, rfl, hf, rfl⟩]
    rfl

theorem nested {r : Decode α} (hr : Reads allowed r f) (levels : Nat) :
    Reads allowed (Decoder.nested levels r) fun a => (f a).given (0 < levels) := by
  cases levels with
  | zero => exact throw _ fun a => Nat.lt_irrefl 0
  | succ levels => exact hr.deeper.congr fun a => by simp

/-- A declared number of values is believed when as many bytes are left. -/
theorem counted {r : Decode Value} {f : Value → Format} (hr : Reads allowed r f)
    (hsolid : ∀ v, (f v).Solid) :
    Reads allowed (Decoder.counted r) fun items => Format.counted (items.map f) := by
  rw [Decoder.counted]
  apply behindCount (g := fun n => do
    if (← getThe Decoder).reader.rest.holds n then
      Decoder.times r n []
    else
      MonadExcept.throw (.bufferUnderflow n (← Decoder.remaining)))
  intro n bytes pos slots depth items e
  change (if bytes.holds n then Decoder.times r n [] else _ : Decode (List Value)) _ = _ ↔ _
  rw [Bytes.holds_eq_decide]
  by_cases hn : n ≤ bytes.length
  · rw [if_pos (decide_eq_true hn)]
    exact hr.times_nil n bytes pos slots depth items e
  · rw [if_neg (by simpa using hn)]
    constructor
    · intro h
      cases h
    · rintro ⟨taken, rest, kinds, rfl, ⟨rfl, hitems⟩, -⟩
      have hlength := length_le_of_fields (by simp [hsolid]) hitems
      rw [List.length_map] at hlength
      rw [List.length_append] at hn
      omega

theorem lob : Reads allowed Decoder.lob fun l =>
    (fields [byte l.kind.code, stream l.kind]).given (l.content = none) := by
  rw [Decoder.lob]
  apply (coded LobKind.ofCode_eq_ok_iff).field Lob.kind
  intro kind bytes pos slots depth l e
  rw [bind_eq_ok_iff]
  simp only [fields_singleton]
  constructor
  · rintro ⟨index, d, hindex, h⟩
    obtain ⟨taken, rest, _, rfl, ⟨rfl, rfl⟩, rfl⟩ := (uint16 ..).mp hindex
    change (if index.toNat = (slots ++ #[]).size then _ else _ : Decode Lob) _ = _ at h
    rw [Array.append_empty] at h
    by_cases hsize : index.toNat = slots.size
    · rw [if_pos hsize] at h
      cases h
      exact ⟨_, rest, [kind], rfl, ⟨⟨rfl, rfl⟩, hsize ▸ index.toNat_lt, by rw [hsize], rfl⟩,
        by simp⟩
    · rw [if_neg hsize] at h
      cases h
  · rintro ⟨_, rest, _, rfl, ⟨⟨hcontent, rfl⟩, hsize, rfl, rfl⟩, rfl⟩
    have hindex : (UInt16.ofNat slots.size).toNat = slots.size := UInt16.toNat_ofNat_of_lt' hsize
    refine ⟨UInt16.ofNat slots.size, _, (uint16 ..).mpr ⟨_, rest, [], rfl, ⟨by rw [hindex], rfl⟩,
      rfl⟩, ?_⟩
    change (if (UInt16.ofNat slots.size).toNat = (slots ++ #[]).size then _ else _ :
      Decode Lob) _ = _
    rw [Array.append_empty, if_pos hindex]
    cases l
    cases hcontent
    simp
    rfl

theorem reference : Reads allowed Decoder.reference Format.reference := by
  rw [Decoder.reference]
  unfold Format.reference
  apply record
  apply string.field LobReference.id
  intro id
  apply (coded LobKind.ofCode_eq_ok_iff).field LobReference.kind
  intro kind
  apply int64.part (fun n (r : LobReference) => r.length = if n < 0 then none else some n.toUInt64)
  intro n
  apply done
  rintro ⟨id', kind', length⟩
  simp [eq_comm, and_assoc]

theorem handshakeBody : Reads allowed Decoder.handshakeBody Format.handshakeBody := by
  rw [Decoder.handshakeBody]
  unfold Format.handshakeBody
  apply record
  apply uint8.field Handshake.version
  intro version
  apply string.field Handshake.productVersion
  intro productVersion
  apply (coded AuthType.ofCode_eq_ok_iff).field Handshake.authType
  intro authType
  apply done
  rintro ⟨version', productVersion', authType'⟩
  simp [eq_comm, and_assoc]

theorem exceptionBody : Reads allowed Decoder.exceptionBody Format.exceptionBody := by
  rw [Decoder.exceptionBody]
  unfold Format.exceptionBody
  apply record
  apply (optional string).field ServerException.className
  intro className
  apply (optional string).field ServerException.code
  intro code
  apply string.field ServerException.message
  intro message
  apply done
  rintro ⟨className', code', message'⟩
  simp [eq_comm, and_assoc]

theorem chunkBody : Reads allowed Decoder.chunkBody Format.chunkBody := by
  rw [Decoder.chunkBody]
  unfold Format.chunkBody
  apply record
  apply bytes.field Chunk.data
  intro data
  apply boolean.field Chunk.isLast
  intro isLast
  apply done
  rintro ⟨data', isLast'⟩
  simp [eq_comm]

theorem property : Reads allowed (liftM Decoder.property) Format.property := by
  rw [Decoder.property]
  simp only [Decode.liftM_bind, Decode.liftM_pure]
  unfold Format.property
  apply record
  apply string.field Prod.fst
  intro key
  apply string.field Prod.snd
  intro value
  apply done
  rintro ⟨key', value'⟩
  simp [eq_comm]

theorem logonRequestBody : Reads allowed Decoder.logonRequestBody Format.logonRequestBody := by
  rw [Decoder.logonRequestBody]
  simp only [Decode.liftM_times]
  unfold Format.logonRequestBody
  apply record
  apply (optional string).field LogonRequest.user
  intro user
  apply (optional string).field LogonRequest.password
  intro password
  apply (optional bytes).field LogonRequest.token
  intro token
  apply countedField LogonRequest.properties (property.times_nil ·)
  intro properties
  apply done
  rintro ⟨user', password', token', properties'⟩
  simp [eq_comm, and_assoc]

theorem logonResultBody : Reads allowed Decoder.logonResultBody Format.logonResultBody := by
  rw [Decoder.logonResultBody]
  unfold Format.logonResultBody
  apply record
  apply string.field LogonResult.sessionId
  intro sessionId
  apply string.field LogonResult.userName
  intro userName
  apply (optional bytes).field LogonResult.continuation
  intro continuation
  apply done
  rintro ⟨sessionId', userName', continuation'⟩
  simp [eq_comm, and_assoc]

theorem column : Reads allowed (liftM Decoder.column) Format.column := by
  rw [Decoder.column]
  simp only [Decode.liftM_bind, Decode.liftM_pure]
  unfold Format.column
  apply record
  apply string.field Column.name
  intro name
  apply shortString.field Column.typeName
  intro typeName
  apply done
  rintro ⟨name', typeName'⟩
  simp [eq_comm]

end Reads

end QueryClient

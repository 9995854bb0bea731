import Mathlib.Data.List.Nodup
import QueryClient.Proofs.Session.Entries
import QueryClient.Session.Executing

/-!
# The streams of an execution

What a session knows about the streams of one execution: their numbers and references in the order
in which they were opened, the marks of each, and whether the execution is closed. Each change says
what becomes of these, and nobody else looks at the list of executions.
-/

namespace QueryClient.Session

variable {σ τ : Type} {e : Nat} {s : Session σ} {t : Session τ}

/-- The streams of an execution, by number and reference. -/
def names (e : Nat) (s : Session σ) : List (UInt64 × LobReference) :=
  match s.executions[e]? with
  | some execution => execution.streams.map fun opened => (opened.id, opened.reference)
  | none => []

/-- Whether a stream was opened on an execution. -/
def Knows (e : Nat) (stream : UInt64) (s : Session σ) : Prop :=
  stream ∈ (s.names e).map Prod.fst

section Congruence

variable (h : t.executions = s.executions)
include h

theorem names_congr : t.names e = s.names e := by
  rw [names, names, h]

theorem marks_congr (stream : UInt64) : t.marks e stream = s.marks e stream := by
  rw [marks, marks, h]

theorem isExecutionClosed_congr : t.isExecutionClosed e = s.isExecutionClosed e := by
  rw [isExecutionClosed, isExecutionClosed, h]

theorem executionId_congr : t.executionId e = s.executionId e := by
  rw [executionId, executionId, h]

end Congruence

theorem getElem?_changeExecution (f : Execution → Execution) :
    (s.changeExecution e f).executions[e]? = s.executions[e]?.map f := by
  simp [changeExecution]

/-! ## Marking a stream -/

section Marking

variable {stream other : UInt64} {m : Lob.Marks}

/-- A stream with other marks, if it has this number. -/
def remarked (stream : UInt64) (m : Lob.Marks) (opened : LobStream) : LobStream :=
  if opened.id == stream then { opened with marks := m } else opened

@[simp] theorem id_remarked (opened : LobStream) :
    (remarked stream m opened).id = opened.id := by
  unfold remarked
  split <;> rfl

@[simp] theorem reference_remarked (opened : LobStream) :
    (remarked stream m opened).reference = opened.reference := by
  unfold remarked
  split <;> rfl

theorem find?_remarked (streams : List LobStream) :
    (streams.map (remarked stream m)).find? (·.id == other) =
      (streams.find? (·.id == other)).map (remarked stream m) := by
  rw [List.find?_map]
  congr 2
  funext opened
  simp

theorem getElem?_setMarks : (s.setMarks e stream m).executions[e]? =
    s.executions[e]?.map fun execution =>
      { execution with streams := execution.streams.map (remarked stream m) } :=
  getElem?_changeExecution _

@[simp] theorem names_setMarks : (s.setMarks e stream m).names e = s.names e := by
  rw [names, names, getElem?_setMarks]
  cases s.executions[e]? <;> simp [Function.comp_def]

@[simp] theorem isExecutionClosed_setMarks :
    (s.setMarks e stream m).isExecutionClosed e = s.isExecutionClosed e := by
  rw [isExecutionClosed, isExecutionClosed, getElem?_setMarks]
  cases s.executions[e]? <;> rfl

@[simp] theorem executionId_setMarks :
    (s.setMarks e stream m).executionId e = s.executionId e := by
  rw [executionId, executionId, getElem?_setMarks]
  cases s.executions[e]? <;> rfl

theorem marks_setMarks : (s.setMarks e stream m).marks e other =
    match s.executions[e]?.bind fun execution => execution.streams.find? (·.id == other) with
    | some opened => (remarked stream m opened).marks
    | none => ⟨true, true⟩ := by
  rw [marks, getElem?_setMarks]
  cases s.executions[e]? with
  | none => rfl
  | some execution =>
    simp only [Option.map_some, Option.bind_some, find?_remarked]
    cases execution.streams.find? (·.id == other) <;> rfl

theorem marks_setMarks_of_ne (h : other ≠ stream) :
    (s.setMarks e stream m).marks e other = s.marks e other := by
  rw [marks_setMarks, marks]
  cases hfind : s.executions[e]?.bind fun execution => execution.streams.find? (·.id == other) with
  | none => rfl
  | some opened =>
    obtain ⟨execution, -, hopened⟩ := Option.bind_eq_some_iff.1 hfind
    have hid : opened.id = other := by simpa using List.find?_some hopened
    simp [remarked, hid, h]

theorem marks_setMarks_self (h : s.Knows e stream) :
    (s.setMarks e stream m).marks e stream = m := by
  rw [marks_setMarks]
  obtain ⟨name, hname, hstream⟩ := List.mem_map.1 h
  rw [names] at hname
  cases hexecution : s.executions[e]? with
  | none =>
    rw [hexecution] at hname
    cases hname
  | some execution =>
    rw [hexecution] at hname
    obtain ⟨opened, hopened, heq⟩ := List.mem_map.1 hname
    have hid : opened.id = stream := by rw [← hstream, ← heq]
    cases hfind : execution.streams.find? (·.id == stream) with
    | none => exact absurd hid (by simpa using List.find?_eq_none.1 hfind opened hopened)
    | some found =>
      have hfound : found.id = stream := by simpa using List.find?_some hfind
      simp [remarked, hfound, hfind]

/-- A stream that nobody knows counts as closed and released. -/
theorem marks_of_not_knows (h : ¬ s.Knows e stream) : s.marks e stream = ⟨true, true⟩ := by
  rw [marks]
  cases hfind : s.executions[e]?.bind fun execution => execution.streams.find? (·.id == stream) with
  | none => rfl
  | some opened =>
    obtain ⟨execution, hexecution, hopened⟩ := Option.bind_eq_some_iff.1 hfind
    refine absurd ?_ h
    rw [Knows, names, hexecution]
    have hid : opened.id = stream := by simpa using List.find?_some hopened
    exact List.mem_map.2 ⟨_, List.mem_map_of_mem (List.mem_of_find?_eq_some hopened), hid⟩

/-- The marks of a stream are those in the list. -/
theorem marks_of_mem {execution : Execution} (hexecution : s.executions[e]? = some execution)
    (hdistinct : ((s.names e).map Prod.fst).Nodup) {opened : LobStream}
    (hopened : opened ∈ execution.streams) : s.marks e opened.id = opened.marks := by
  have hids : (execution.streams.map (·.id)).Nodup := by
    simpa [names, hexecution, Function.comp_def] using hdistinct
  rw [marks, hexecution]
  cases hfind : execution.streams.find? (·.id == opened.id) with
  | none =>
    have hnone := List.find?_eq_none.1 hfind opened hopened
    exact absurd (beq_self_eq_true opened.id) hnone
  | some found =>
    have hfound : found.id = opened.id := by simpa using List.find?_some hfind
    have hsame : found = opened :=
      List.inj_on_of_nodup_map hids (List.mem_of_find?_eq_some hfind) hopened hfound
    simp [hfind, hsame]

/-- Other marks that agree on the release leave every release as it is. -/
theorem released_setMarks (h : m.released = (s.marks e stream).released) (other : UInt64) :
    ((s.setMarks e stream m).marks e other).released = (s.marks e other).released := by
  by_cases hother : other = stream
  · subst hother
    by_cases hknows : s.Knows e other
    · rw [marks_setMarks_self hknows, h]
    · have hunknown : ¬ (s.setMarks e other m).Knows e other := by
        rwa [Knows, names_setMarks]
      rw [marks_of_not_knows hknows, marks_of_not_knows hunknown]
  · rw [marks_setMarks_of_ne hother]

end Marking

/-! ## Opening a stream -/

section Opening

variable {reference : LobReference}

/-- The session once another stream is opened on an execution. -/
def withStream (e : Nat) (reference : LobReference) (s : Session σ) : Session σ :=
  changeExecution e (fun execution => { execution with
      streams := execution.streams ++ [⟨s.lastStream + 1, reference, ⟨false, false⟩⟩] })
    { s with lastStream := s.lastStream + 1 }

theorem exec_openLob : exec (openLob e reference) s =
    if s.isExecutionClosed e then (.error .cursorClosed, s)
    else (.ok (Streamer.start (s.lastStream + 1) reference s.settings.callTimeout),
      s.withStream e reference) := by
  rw [openLob, ensureExecutionOpen]
  by_cases h : s.isExecutionClosed e = true
  · simp [exec_bind, h]
  · simp only [exec_bind, exec_get, h]
    rfl

theorem exists_of_open (h : s.isExecutionClosed e = false) :
    ∃ execution, s.executions[e]? = some execution ∧ execution.closed = false := by
  rw [isExecutionClosed] at h
  cases hexecution : s.executions[e]? with
  | none => simp [hexecution] at h
  | some execution => exact ⟨execution, rfl, by simpa [hexecution] using h⟩

variable (h : s.isExecutionClosed e = false)
include h

variable (reference) in
theorem getElem?_withStream : ∃ execution, s.executions[e]? = some execution ∧
    execution.closed = false ∧ (s.withStream e reference).executions[e]? = some { execution with
      streams := execution.streams ++ [⟨s.lastStream + 1, reference, ⟨false, false⟩⟩] } := by
  obtain ⟨execution, hexecution, hopen⟩ := exists_of_open h
  refine ⟨execution, hexecution, hopen, ?_⟩
  rw [withStream, getElem?_changeExecution, hexecution]
  rfl

theorem names_withStream :
    (s.withStream e reference).names e = s.names e ++ [(s.lastStream + 1, reference)] := by
  obtain ⟨execution, hexecution, -, hafter⟩ := getElem?_withStream reference h
  simp [names, hexecution, hafter]

theorem isExecutionClosed_withStream :
    (s.withStream e reference).isExecutionClosed e = false := by
  obtain ⟨execution, -, hopen, hafter⟩ := getElem?_withStream reference h
  simp [isExecutionClosed, hafter, hopen]

theorem executionId_withStream :
    (s.withStream e reference).executionId e = s.executionId e := by
  obtain ⟨execution, hexecution, -, hafter⟩ := getElem?_withStream reference h
  simp [executionId, hexecution, hafter]

theorem marks_withStream_of_knows {stream : UInt64} (hknows : s.Knows e stream) :
    (s.withStream e reference).marks e stream = s.marks e stream := by
  obtain ⟨execution, hexecution, -, hafter⟩ := getElem?_withStream reference h
  obtain ⟨name, hname, hstream⟩ := List.mem_map.1 hknows
  simp only [names, hexecution, List.mem_map] at hname
  obtain ⟨opened, hopened, rfl⟩ := hname
  have hfound : (execution.streams.find? (·.id == stream)).isSome = true :=
    List.find?_isSome.2 ⟨opened, hopened, by simpa using hstream⟩
  obtain ⟨found, hfound⟩ := Option.isSome_iff_exists.1 hfound
  simp [marks, hexecution, hafter, List.find?_append, hfound]

theorem marks_withStream_new (hnew : ¬ s.Knows e (s.lastStream + 1)) :
    (s.withStream e reference).marks e (s.lastStream + 1) = ⟨false, false⟩ := by
  obtain ⟨execution, hexecution, -, hafter⟩ := getElem?_withStream reference h
  have hnone : execution.streams.find? (·.id == s.lastStream + 1) = none := by
    refine List.find?_eq_none.2 fun opened hopened heq => hnew ?_
    rw [Knows, names, hexecution]
    exact List.mem_map.2 ⟨_, List.mem_map_of_mem hopened, by simpa using heq⟩
  simp [marks, hafter, List.find?_append, hnone]

end Opening

/-! ## Closing the execution -/

/-- The session once an execution is closed. -/
def withClosed (e : Nat) (s : Session σ) : Session σ :=
  s.changeExecution e fun execution => { execution with closed := true }

@[simp] theorem names_withClosed : (s.withClosed e).names e = s.names e := by
  rw [names, names, withClosed, getElem?_changeExecution]
  cases s.executions[e]? <;> rfl

@[simp] theorem marks_withClosed (stream : UInt64) :
    (s.withClosed e).marks e stream = s.marks e stream := by
  rw [marks, marks, withClosed, getElem?_changeExecution]
  cases s.executions[e]? <;> rfl

@[simp] theorem executionId_withClosed : (s.withClosed e).executionId e = s.executionId e := by
  rw [executionId, executionId, withClosed, getElem?_changeExecution]
  cases s.executions[e]? <;> rfl

@[simp] theorem isExecutionClosed_withClosed : (s.withClosed e).isExecutionClosed e = true := by
  rw [isExecutionClosed, withClosed, getElem?_changeExecution]
  cases s.executions[e]? <;> rfl

/-- Streams that are abandoned are closed, and nothing else changes. -/
theorem abandonStreams_spec (streams : List LobStream) (s : Session σ) :
    let t := abandonStreams e streams s
    t.names e = s.names e ∧ t.isExecutionClosed e = s.isExecutionClosed e ∧
      t.executionId e = s.executionId e ∧
      (∀ stream, (t.marks e stream).released = (s.marks e stream).released) ∧
      t = { s with executions := t.executions } := by
  induction streams generalizing s with
  | nil => exact ⟨rfl, rfl, rfl, fun _ => rfl, rfl⟩
  | cons opened rest ih =>
    obtain ⟨hnames, hclosed, hid, hreleased, hrest⟩ := ih
      (s.setMarks e opened.id { s.marks e opened.id with closed := true })
    refine ⟨hnames.trans names_setMarks, hclosed.trans isExecutionClosed_setMarks,
      hid.trans executionId_setMarks, fun stream => (hreleased stream).trans ?_, hrest⟩
    apply released_setMarks
    rfl

end QueryClient.Session

import QueryClient.Value

/-!
# Inside values and messages

What a message holds at any depth (`parts`), how deep it is nested (`height`), and induction over
values and messages together (`Hereditary`).
-/

namespace QueryClient

/-- The content of a value that is a large object with content. -/
def Value.content? : Value → Option Bytes
  | .lob ⟨_, content⟩ => content
  | _ => none

mutual

/-- A value and everything inside it, what stands before a value in the message before it. -/
def Value.parts : Value → List Value
  | .list items => .list items :: partsOfEach items
  | .named typeName fields => .named typeName fields :: partsOfEach fields
  | .message m => m.parts
  | v => [v]

def partsOfEach : List Value → List Value
  | [] => []
  | v :: rest => v.parts ++ partsOfEach rest

def partsOfRows : List Row → List Value
  | [] => []
  | row :: rest => partsOfEach row ++ partsOfRows rest

/-- A message, as a value, and everything inside it. -/
def Message.parts : Message → List Value
  | .invocation ⟨key, service, method, args⟩ =>
    .message (.invocation ⟨key, service, method, args⟩) :: partsOfEach args
  | .reply ⟨key, .ok v⟩ => .message (.reply ⟨key, .ok v⟩) :: v.parts
  | .request ⟨executionId, sql, parameters, fetchSize, cursorType, rowLimit, queryTimeout⟩ =>
    .message (.request
      ⟨executionId, sql, parameters, fetchSize, cursorType, rowLimit, queryTimeout⟩)
      :: partsOfEach parameters
  | .results ⟨firstRow, lastRow, finalRow, columns, rows, updateCount, warnings, exception⟩ =>
    .message (.results
      ⟨firstRow, lastRow, finalRow, columns, rows, updateCount, warnings, exception⟩)
      :: partsOfRows rows
  | m => [.message m]

end

mutual

/-- How many levels a value has: each value, message or exception in it is one below its parent. -/
def Value.height : Value → Nat
  | .list items => heightOfEach items + 1
  | .named _ fields => heightOfEach fields + 1
  | .message m => m.height
  | _ => 1

def heightOfEach : List Value → Nat
  | [] => 0
  | v :: rest => max v.height (heightOfEach rest)

def heightOfRows : List Row → Nat
  | [] => 0
  | row :: rest => max (heightOfEach row) (heightOfRows rest)

/-- How many levels a message has. -/
def Message.height : Message → Nat
  | .invocation ⟨_, _, _, args⟩ => heightOfEach args + 1
  | .reply ⟨_, .ok v⟩ => v.height + 1
  | .reply ⟨_, .error _⟩ => 2
  | .request ⟨_, _, parameters, _, _, _, _⟩ => heightOfEach parameters + 1
  | .results ⟨_, _, _, _, rows, _, _, exception⟩ =>
    max (heightOfRows rows) (if exception.isSome then 1 else 0) + 1
  | _ => 1

end

/-- The contents of the large objects in a value, in the order in which they are announced. -/
def Value.contents (v : Value) : List Bytes :=
  v.parts.filterMap Value.content?

/-- The contents of the large objects in a message. -/
def Message.contents (m : Message) : List Bytes :=
  m.parts.filterMap Value.content?

theorem partsOfEach_eq (items : List Value) : partsOfEach items = items.flatMap Value.parts := by
  induction items with
  | nil => rfl
  | cons v rest ih => rw [partsOfEach, ih, List.flatMap_cons]

theorem partsOfRows_eq (rows : List Row) : partsOfRows rows = rows.flatten.flatMap Value.parts := by
  induction rows with
  | nil => rfl
  | cons row rest ih =>
    rw [partsOfRows, ih, partsOfEach_eq, List.flatten_cons, List.flatMap_append]

theorem forall_partsOfEach {P : Value → Prop} {items : List Value} :
    (∀ part ∈ partsOfEach items, P part) ↔ ∀ v ∈ items, ∀ part ∈ v.parts, P part := by
  rw [partsOfEach_eq, List.forall_mem_flatMap]

theorem forall_partsOfRows {P : Value → Prop} {rows : List Row} :
    (∀ part ∈ partsOfRows rows, P part) ↔ ∀ row ∈ rows, ∀ v ∈ row, ∀ part ∈ v.parts, P part := by
  rw [partsOfRows_eq, List.forall_mem_flatMap, List.forall_mem_flatten]

theorem filterMap_partsOfEach (items : List Value) :
    (partsOfEach items).filterMap Value.content? = items.flatMap Value.contents := by
  rw [partsOfEach_eq, List.filterMap_flatMap]
  rfl

theorem filterMap_partsOfRows (rows : List Row) :
    (partsOfRows rows).filterMap Value.content? =
      rows.flatMap fun row => row.flatMap Value.contents := by
  induction rows with
  | nil => rfl
  | cons row rest ih =>
    rw [partsOfRows, List.filterMap_append, ih, filterMap_partsOfEach, List.flatMap_cons]

section Contents

theorem Value.contents_list (items : List Value) :
    (Value.list items).contents = items.flatMap Value.contents := by
  rw [← filterMap_partsOfEach]
  rfl

theorem Value.contents_named (typeName : String) (fields : List Value) :
    (Value.named typeName fields).contents = fields.flatMap Value.contents := by
  rw [← filterMap_partsOfEach]
  rfl

theorem Message.contents_invocation (i : Invocation) :
    (Message.invocation i).contents = i.args.flatMap Value.contents := by
  cases i
  rw [← filterMap_partsOfEach]
  rfl

theorem Message.contents_request (r : Request) :
    (Message.request r).contents = r.parameters.flatMap Value.contents := by
  cases r
  rw [← filterMap_partsOfEach]
  rfl

theorem Message.contents_results (r : Results) : (Message.results r).contents =
    r.rows.flatMap fun row => row.flatMap Value.contents := by
  cases r
  rw [← filterMap_partsOfRows]
  rfl

end Contents

theorem heightOfEach_le_iff {items : List Value} {levels : Nat} :
    heightOfEach items ≤ levels ↔ ∀ v ∈ items, v.height ≤ levels := by
  induction items with
  | nil => simp [heightOfEach]
  | cons v rest ih => rw [heightOfEach, Nat.max_le, ih, List.forall_mem_cons]

theorem heightOfRows_le_iff {rows : List Row} {levels : Nat} :
    heightOfRows rows ≤ levels ↔ ∀ row ∈ rows, ∀ v ∈ row, v.height ≤ levels := by
  induction rows with
  | nil => simp [heightOfRows]
  | cons row rest ih =>
    rw [heightOfRows, Nat.max_le, ih, heightOfEach_le_iff, List.forall_mem_cons]

theorem Message.height_pos (m : Message) : 0 < m.height := by
  unfold Message.height
  split <;> omega

theorem Value.height_pos (v : Value) : 0 < v.height := by
  unfold Value.height
  split
  case h_3 m => exact m.height_pos
  all_goals omega

/-- A property of values and one of messages that hold of whatever is built from parts with them. -/
structure Hereditary (p : Value → Prop) (q : Message → Prop) : Prop where
  null : p .null
  boolean : ∀ b, p (.boolean b)
  integer : ∀ n, p (.integer n)
  long : ∀ n, p (.long n)
  double : ∀ x, p (.double x)
  string : ∀ text, p (.string text)
  binary : ∀ bytes, p (.binary bytes)
  list : ∀ items, (∀ v ∈ items, p v) → p (.list items)
  lob : ∀ lob, p (.lob lob)
  reference : ∀ reference, p (.reference reference)
  message : ∀ m, q m → p (.message m)
  named : ∀ typeName fields, (∀ v ∈ fields, p v) → p (.named typeName fields)
  handshake : ∀ handshake, q (.handshake handshake)
  invocation : ∀ invocation, (∀ v ∈ invocation.args, p v) → q (.invocation invocation)
  answer : ∀ key v, p v → q (.reply ⟨key, .ok v⟩)
  failure : ∀ key e, q (.reply ⟨key, .error e⟩)
  request : ∀ request, (∀ v ∈ request.parameters, p v) → q (.request request)
  results : ∀ results, (∀ row ∈ results.rows, ∀ v ∈ row, p v) → q (.results results)
  chunk : ∀ chunk, q (.chunk chunk)
  exception : ∀ e, q (.exception e)
  logonRequest : ∀ request, q (.logonRequest request)
  logonResult : ∀ result, q (.logonResult result)

namespace Hereditary

variable {p : Value → Prop} {q : Message → Prop}

mutual

/-- Such a property holds of every value. -/
theorem of_value (h : Hereditary p q) : (v : Value) → p v
  | .null => h.null
  | .boolean b => h.boolean b
  | .integer n => h.integer n
  | .long n => h.long n
  | .double x => h.double x
  | .string text => h.string text
  | .binary bytes => h.binary bytes
  | .list items => h.list items (of_each h items)
  | .lob lob => h.lob lob
  | .reference reference => h.reference reference
  | .message m => h.message m (of_message h m)
  | .named typeName fields => h.named typeName fields (of_each h fields)

theorem of_each (h : Hereditary p q) : (items : List Value) → ∀ v ∈ items, p v
  | [] => nofun
  | v :: rest => List.forall_mem_cons.mpr ⟨of_value h v, of_each h rest⟩

theorem of_rows (h : Hereditary p q) : (rows : List Row) → ∀ row ∈ rows, ∀ v ∈ row, p v
  | [] => nofun
  | row :: rest => List.forall_mem_cons.mpr ⟨of_each h row, of_rows h rest⟩

/-- Such a property holds of every message. -/
theorem of_message (h : Hereditary p q) : (m : Message) → q m
  | .handshake handshake => h.handshake handshake
  | .invocation ⟨_, _, _, args⟩ => h.invocation _ (of_each h args)
  | .reply ⟨key, .ok v⟩ => h.answer key v (of_value h v)
  | .reply ⟨key, .error e⟩ => h.failure key e
  | .request ⟨_, _, parameters, _, _, _, _⟩ => h.request _ (of_each h parameters)
  | .results ⟨_, _, _, _, rows, _, _, _⟩ => h.results _ (of_rows h rows)
  | .chunk chunk => h.chunk chunk
  | .exception e => h.exception e
  | .logonRequest request => h.logonRequest request
  | .logonResult result => h.logonResult result

end

end Hereditary

end QueryClient

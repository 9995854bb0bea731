import Mathlib.Algebra.Group.Nat.Defs
import QueryClient.Proofs.Value
import QueryClient.Wire.AllowList
import QueryClient.Wire.Binding

/-!
# What a body keeps of a message

A body says of a large object only its kind, of a timeout its whole milliseconds, and of a length
only what fits (`asSent`). Contents that follow the body are bound again in the order in which they
were kept aside, so that a message arrives as it was if its parts are exact.
-/

namespace QueryClient

/-- A length as a signed number, where unknown is `-1` and whatever is negative is unknown. -/
def sentLength (length : Option UInt64) : Option UInt64 :=
  let n := (length.map UInt64.toInt64).getD (-1)
  if n < 0 then none else some n.toUInt64

/-- A timeout in milliseconds in eight bytes, where zero is none. -/
def sentTimeout (timeout : Option Duration) : Option Duration :=
  let n := UInt64.ofNat ((timeout.map Duration.wholeMilliseconds).getD 0)
  if n.toNat = 0 then none else some (Duration.milliseconds n.toNat)

theorem sentLength_some {length : UInt64} (h : length.toNat < 2 ^ 63) :
    sentLength (some length) = some length := by
  have hsigned : length.toInt64 = Int64.ofNat length.toNat := by
    rw [← UInt64.toInt64_ofNat', UInt64.ofNat_toNat]
  have hnonneg : ¬ length.toInt64 < 0 := by
    rw [Int64.lt_iff_toInt_lt, hsigned, Int64.toInt_ofNat_of_lt h, Int64.toInt_zero]
    omega
  unfold sentLength
  rw [Option.map_some, Option.getD_some, if_neg hnonneg, UInt64.toUInt64_toInt64]

theorem sentTimeout_some {n : Nat} (hpos : 0 < n) (hlt : n < 2 ^ 64) :
    sentTimeout (some (Duration.milliseconds n)) = some (Duration.milliseconds n) := by
  have hwhole : (Duration.milliseconds n).wholeMilliseconds = n :=
    Nat.mul_div_cancel n (by decide)
  have hword : (UInt64.ofNat n).toNat = n := UInt64.toNat_ofNat_of_lt' hlt
  unfold sentTimeout
  rw [Option.map_some, Option.getD_some, hwhole]
  dsimp only
  rw [hword, if_neg (by omega)]

mutual

/-- The value as a body says it. -/
def Value.asSent : Value → Value
  | .list items => .list (asSentEach items)
  | .lob ⟨kind, _⟩ => .lob ⟨kind, none⟩
  | .reference ⟨id, kind, length⟩ => .reference ⟨id, kind, sentLength length⟩
  | .message m => .message m.asSent
  | .named typeName fields => .named typeName (asSentEach fields)
  | .null => .null
  | .boolean b => .boolean b
  | .integer n => .integer n
  | .long n => .long n
  | .double x => .double x
  | .string text => .string text
  | .binary bytes => .binary bytes

def asSentEach : List Value → List Value
  | [] => []
  | v :: rest => v.asSent :: asSentEach rest

def asSentRows : List Row → List Row
  | [] => []
  | row :: rest => asSentEach row :: asSentRows rest

/-- The message as a body says it. -/
def Message.asSent : Message → Message
  | .invocation ⟨key, service, method, args⟩ => .invocation ⟨key, service, method, asSentEach args⟩
  | .reply ⟨key, .ok v⟩ => .reply ⟨key, .ok v.asSent⟩
  | .reply ⟨key, .error e⟩ => .reply ⟨key, .error e⟩
  | .request ⟨executionId, sql, parameters, fetchSize, cursorType, rowLimit, queryTimeout⟩ =>
    .request ⟨executionId, sql, asSentEach parameters, fetchSize, cursorType, rowLimit,
      sentTimeout queryTimeout⟩
  | .results ⟨firstRow, lastRow, finalRow, columns, rows, updateCount, warnings, exception⟩ =>
    .results ⟨firstRow, lastRow, finalRow, columns, asSentRows rows, updateCount, warnings,
      exception⟩
  | .handshake handshake => .handshake handshake
  | .chunk chunk => .chunk chunk
  | .exception e => .exception e
  | .logonRequest request => .logonRequest request
  | .logonResult result => .logonResult result

end

theorem asSentEach_eq (items : List Value) : asSentEach items = items.map Value.asSent := by
  induction items with
  | nil => rfl
  | cons v rest ih => rw [asSentEach, ih, List.map_cons]

theorem asSentRows_eq (rows : List Row) :
    asSentRows rows = rows.map fun row => row.map Value.asSent := by
  induction rows with
  | nil => rfl
  | cons row rest ih => rw [asSentRows, ih, asSentEach_eq, List.map_cons]

section Height

theorem heightOfEach_asSent {items : List Value} (h : ∀ v ∈ items, v.asSent.height = v.height) :
    heightOfEach (asSentEach items) = heightOfEach items := by
  induction items with
  | nil => rfl
  | cons v rest ih =>
    rw [List.forall_mem_cons] at h
    rw [asSentEach, heightOfEach, heightOfEach, h.1, ih h.2]

theorem heightOfRows_asSent {rows : List Row}
    (h : ∀ row ∈ rows, ∀ v ∈ row, v.asSent.height = v.height) :
    heightOfRows (asSentRows rows) = heightOfRows rows := by
  induction rows with
  | nil => rfl
  | cons row rest ih =>
    rw [List.forall_mem_cons] at h
    rw [asSentRows, heightOfRows, heightOfRows, heightOfEach_asSent h.1, ih h.2]

/-- A body keeps the nesting. -/
theorem hereditary_height : Hereditary (fun v => v.asSent.height = v.height)
    (fun m => m.asSent.height = m.height) where
  null := rfl
  boolean _ := rfl
  integer _ := rfl
  long _ := rfl
  double _ := rfl
  string _ := rfl
  binary _ := rfl
  list items ih := by
    rw [Value.asSent, Value.height, Value.height, heightOfEach_asSent ih]
  lob _ := rfl
  reference _ := rfl
  message m ih := by
    rw [Value.asSent, Value.height, Value.height, ih]
  named typeName fields ih := by
    rw [Value.asSent, Value.height, Value.height, heightOfEach_asSent ih]
  handshake _ := rfl
  invocation i ih := by
    obtain ⟨key, service, method, args⟩ := i
    rw [Message.asSent, Message.height, Message.height, heightOfEach_asSent ih]
  answer key v ih := by
    rw [Message.asSent, Message.height, Message.height, ih]
  failure _ _ := rfl
  request r ih := by
    obtain ⟨executionId, sql, parameters, fetchSize, cursorType, rowLimit, queryTimeout⟩ := r
    rw [Message.asSent, Message.height, Message.height, heightOfEach_asSent ih]
  results r ih := by
    obtain ⟨firstRow, lastRow, finalRow, columns, rows, updateCount, warnings, failure⟩ := r
    rw [Message.asSent, Message.height, Message.height, heightOfRows_asSent ih]
  chunk _ := rfl
  exception _ := rfl
  logonRequest _ := rfl
  logonResult _ := rfl

theorem Message.height_asSent (m : Message) : m.asSent.height = m.height :=
  hereditary_height.of_message m

end Height

/-- A part that arrives as it was sent. -/
def Value.Exact : Value → Prop
  | .lob ⟨_, content⟩ => content.isSome
  | .reference ⟨_, _, length⟩ => sentLength length = length
  | .message (.request ⟨_, _, _, _, _, _, queryTimeout⟩) => sentTimeout queryTimeout = queryTimeout
  | _ => True

/-- A part that a peer with an allow-list takes for what it is: a foreign name must be permitted. -/
def Value.Permitted (allowed : AllowList) : Value → Prop
  | .named typeName _ => allowed.resolve typeName = .ok none
  | _ => True

namespace Binding

variable {α β : Type} {rest : List Bytes}

theorem bind_apply (x : Bind α) (f : α → Bind β) (contents : List Bytes) :
    (x >>= f) contents = f (x contents).1 (x contents).2 := rfl

/-- Values in order, each from its own contents. -/
theorem each_asSent {items : List Value}
    (h : ∀ v ∈ items, ∀ rest, value v.asSent (v.contents ++ rest) = (v, rest))
    (before : List Value) :
    each (items.map Value.asSent) before (items.flatMap Value.contents ++ rest) =
      (before.reverse ++ items, rest) := by
  induction items generalizing before with
  | nil =>
    rw [List.append_nil]
    rfl
  | cons v items ih =>
    rw [List.forall_mem_cons] at h
    rw [List.map_cons, each, List.flatMap_cons, List.append_assoc, bind_apply, h.1, ih h.2,
      List.reverse_cons, List.append_assoc, List.singleton_append]

theorem rows_asSent {cells : List Row}
    (h : ∀ row ∈ cells, ∀ v ∈ row, ∀ rest, value v.asSent (v.contents ++ rest) = (v, rest))
    (before : List Row) :
    rows (cells.map fun row => row.map Value.asSent) before
      (cells.flatMap (fun row => row.flatMap Value.contents) ++ rest) =
      (before.reverse ++ cells, rest) := by
  induction cells generalizing before with
  | nil =>
    rw [List.append_nil]
    rfl
  | cons row cells ih =>
    rw [List.forall_mem_cons] at h
    rw [List.map_cons, rows, List.flatMap_cons, List.append_assoc, bind_apply, each_asSent h.1,
      ih h.2, List.reverse_nil, List.nil_append, List.reverse_cons, List.append_assoc,
      List.singleton_append]

/-- What is exact in all of its parts arrives as it was. -/
theorem hereditary : Hereditary
    (fun v => (∀ part ∈ v.parts, part.Exact) →
      ∀ rest, value v.asSent (v.contents ++ rest) = (v, rest))
    (fun m => (∀ part ∈ m.parts, part.Exact) →
      ∀ rest, message m.asSent (m.contents ++ rest) = (m, rest)) where
  null _ _ := rfl
  boolean _ _ _ := rfl
  integer _ _ _ := rfl
  long _ _ _ := rfl
  double _ _ _ := rfl
  string _ _ _ := rfl
  binary _ _ _ := rfl
  list items ih hexact rest := by
    rw [Value.parts, List.forall_mem_cons, forall_partsOfEach] at hexact
    rw [Value.asSent, asSentEach_eq, Value.contents_list, value, bind_apply,
      each_asSent fun v hv => ih v hv (hexact.2 v hv)]
    rfl
  lob l hexact rest := by
    obtain ⟨kind, _ | content⟩ := l
    · exact absurd (hexact _ List.mem_cons_self) nofun
    · rfl
  reference r hexact rest := by
    obtain ⟨id, kind, length⟩ := r
    have hlength : sentLength length = length := hexact _ List.mem_cons_self
    rw [Value.asSent, hlength]
    rfl
  message m ih hexact rest := by
    have hm := ih hexact rest
    rw [Value.asSent, value, bind_apply]
    change (Value.message (message m.asSent (m.contents ++ rest)).1,
      (message m.asSent (m.contents ++ rest)).2) = _
    rw [hm]
  named typeName fields ih hexact rest := by
    rw [Value.parts, List.forall_mem_cons, forall_partsOfEach] at hexact
    rw [Value.asSent, asSentEach_eq, Value.contents_named, value, bind_apply,
      each_asSent fun v hv => ih v hv (hexact.2 v hv)]
    rfl
  handshake _ _ _ := rfl
  invocation i ih hexact rest := by
    obtain ⟨key, service, method, args⟩ := i
    rw [Message.parts, List.forall_mem_cons, forall_partsOfEach] at hexact
    rw [Message.asSent, asSentEach_eq, Message.contents_invocation, message, bind_apply,
      each_asSent fun v hv => ih v hv (hexact.2 v hv)]
    rfl
  answer key v ih hexact rest := by
    rw [Message.parts, List.forall_mem_cons] at hexact
    have hv := ih hexact.2 rest
    rw [Message.asSent, message, bind_apply]
    change (Message.reply ⟨key, .ok (value v.asSent (v.contents ++ rest)).1⟩,
      (value v.asSent (v.contents ++ rest)).2) = _
    rw [hv]
  failure _ _ _ _ := rfl
  request r ih hexact rest := by
    obtain ⟨executionId, sql, parameters, fetchSize, cursorType, rowLimit, queryTimeout⟩ := r
    rw [Message.parts, List.forall_mem_cons, forall_partsOfEach] at hexact
    have htimeout : sentTimeout queryTimeout = queryTimeout := hexact.1
    rw [Message.asSent, htimeout, asSentEach_eq, Message.contents_request, message, bind_apply,
      each_asSent fun v hv => ih v hv (hexact.2 v hv)]
    rfl
  results r ih hexact rest := by
    obtain ⟨firstRow, lastRow, finalRow, columns, cells, updateCount, warnings, failure⟩ := r
    rw [Message.parts, List.forall_mem_cons, forall_partsOfRows] at hexact
    rw [Message.asSent, asSentRows_eq, Message.contents_results, message, bind_apply,
      rows_asSent fun row hrow v hv => ih row hrow v hv (hexact.2 row hrow v hv)]
    rfl
  chunk _ _ _ := rfl
  exception _ _ _ := rfl
  logonRequest _ _ _ := rfl
  logonResult _ _ _ := rfl

end Binding

/-- A message whose parts are exact arrives as it was. -/
theorem Message.bind_asSent {m : Message} (h : ∀ part ∈ m.parts, part.Exact) :
    m.asSent.bind m.contents = m := by
  have hm := Binding.hereditary.of_message m h []
  rw [List.append_nil] at hm
  exact congrArg Prod.fst hm

end QueryClient

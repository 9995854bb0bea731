import QueryClient.Proofs.Wire.Advancing
import QueryClient.Wire.Writer

/-!
# Fields read back

Whatever is written field by field, with or without a limit, is read back by reads of the same
types, and nothing of it is left over. A write and the read of its type restore each other
(`Restores`), which goes through sequences.

What fails has had its effect up to there. A writer stays within its limit whatever was tried on it
(`Writer.Grows`). A read takes its bytes in parts, of which the first ones say how long the next
ones are; be it a success or a failure, it ends behind the last part that was there whole (`Takes`).
-/

namespace QueryClient

open Operation

variable {α β : Type}

/-- The types of what is written and read as one. -/
inductive Field
  | uint8
  | boolean
  | uint16
  | uint32
  | int32
  | uint64
  | int64
  | double
  | bytes
  | string
  | shortString
  | optionalString

namespace Field

abbrev Value : Field → Type
  | uint8 => UInt8
  | boolean => Bool
  | uint16 => UInt16
  | uint32 => UInt32
  | int32 => Int32
  | uint64 => UInt64
  | int64 => Int64
  | double => Double
  | bytes => Bytes
  | string => String
  | shortString => String
  | optionalString => Option String

def write : (f : Field) → f.Value → Write Unit
  | uint8 => Writer.uint8
  | boolean => Writer.boolean
  | uint16 => Writer.uint16
  | uint32 => Writer.uint32
  | int32 => Writer.int32
  | uint64 => Writer.uint64
  | int64 => Writer.int64
  | double => Writer.double
  | bytes => Writer.lengthBytes
  | string => Writer.string
  | shortString => Writer.shortString
  | optionalString => Writer.optional Writer.string

def read : (f : Field) → Read f.Value
  | uint8 => Reader.uint8
  | boolean => Reader.boolean
  | uint16 => Reader.uint16
  | uint32 => Reader.uint32
  | int32 => Reader.int32
  | uint64 => Reader.uint64
  | int64 => Reader.int64
  | double => Reader.double
  | bytes => Reader.bytes
  | string => Reader.string
  | shortString => Reader.shortString
  | optionalString => Reader.optional Reader.string

end Field

/-- What is written and read as one. -/
structure Datum where
  field : Field
  value : field.Value

/-- Writes data one behind another, up to the first write that fails. -/
def Datum.writeAll : List Datum → Write Unit
  | [] => return
  | datum :: rest => do
    datum.field.write datum.value
    writeAll rest

/-- Reads fields one behind another, up to the first read that fails. -/
def Field.readAll : List Field → Read (List Datum)
  | [] => return []
  | field :: rest => do
    let value ← field.read
    let data ← readAll rest
    return ⟨field, value⟩ :: data

/-! ## What was written is read -/

/-- Where the write succeeds, the read gives this result from what was written, whatever follows, and
takes no more than that. -/
def Restores (write : Write Unit) (read : Read α) (a : α) : Prop :=
  ∀ w v, write w = (.ok (), v) → ∃ written, v.bytes = w.bytes ++ written ∧
    ∀ rest pos, read ⟨written ++ rest, pos⟩ = (.ok a, ⟨rest, pos + written.length⟩)

namespace Restores

variable {write write' : Write Unit} {read : Read α} {next : α → Read β} {a : α} {b : β}

theorem pure (a : α) : Restores (Pure.pure ()) (Pure.pure a) a := by
  intro w v h
  obtain ⟨-, rfl⟩ := pure_eq_ok_iff.mp h
  exact ⟨[], (List.append_nil _).symm, fun _ _ => rfl⟩

theorem bind (h : Restores write read a) (h' : Restores write' (next a) b) :
    Restores (write >>= fun _ => write') (read >>= next) b := by
  intro w v hwrite
  obtain ⟨⟨⟩, u, hfirst, hsecond⟩ := bind_eq_ok_iff.mp hwrite
  obtain ⟨first, hu, hread⟩ := h w u hfirst
  obtain ⟨second, hv, hread'⟩ := h' u v hsecond
  refine ⟨first ++ second, by rw [hv, hu, List.append_assoc], fun rest pos => ?_⟩
  rw [List.append_assoc, bind_of_ok (hread _ _), hread', List.length_append, Nat.add_assoc]

/-- A second step of the read alone, which takes nothing. -/
theorem andThen (h : Restores write read a) (hnext : ∀ r, next a r = (.ok b, r)) :
    Restores write (read >>= next) b := by
  intro w v hwrite
  obtain ⟨written, hv, hread⟩ := h w v hwrite
  refine ⟨written, hv, fun rest pos => ?_⟩
  rw [bind_of_ok (hread _ _), hnext]

theorem map (h : Restores write read a) (f : α → β) :
    Restores write (read >>= fun a => Pure.pure (f a)) (f a) :=
  h.andThen fun _ => rfl

theorem guarded {p : Prop} [Decidable p] {fault : Fault} (h : p → Restores write read a) :
    Restores (if p then write else throw fault) read a := by
  by_cases hp : p
  · rw [if_pos hp]
    exact h hp
  · rw [if_neg hp]
    intro w v hwrite
    cases hwrite

theorem put (content : Bytes) :
    Restores (Writer.put content) (Reader.take content.length) content := by
  rintro ⟨written, limit⟩ v h
  rw [Writer.put] at h
  split_ifs at h
  · cases h
  · cases h
    refine ⟨content, by simp [Writer.bytes], fun rest pos => ?_⟩
    rw [Reader.take_apply, if_pos (by simp), List.take_left, List.drop_left]

theorem word (width : Nat) {n : Nat} (hn : n < 256 ^ width) :
    Restores (Writer.word width n) (Reader.word width) n := by
  have hput := (put (Bytes.ofNat width n)).map Bytes.toNat
  rwa [Bytes.length_ofNat, Bytes.toNat_ofNat hn] at hput

theorem uint8 (n : UInt8) : Restores (Writer.uint8 n) Reader.uint8 n := by
  have hword := (word 1 n.toNat_lt).map UInt8.ofNat
  rwa [UInt8.ofNat_toNat] at hword

theorem uint16 (n : UInt16) : Restores (Writer.uint16 n) Reader.uint16 n := by
  have hword := (word 2 n.toNat_lt).map UInt16.ofNat
  rwa [UInt16.ofNat_toNat] at hword

theorem uint32 (n : UInt32) : Restores (Writer.uint32 n) Reader.uint32 n := by
  have hword := (word 4 n.toNat_lt).map UInt32.ofNat
  rwa [UInt32.ofNat_toNat] at hword

theorem uint64 (n : UInt64) : Restores (Writer.uint64 n) Reader.uint64 n := by
  have hword := (word 8 n.toNat_lt).map UInt64.ofNat
  rwa [UInt64.ofNat_toNat] at hword

theorem int32 (n : Int32) : Restores (Writer.int32 n) Reader.int32 n :=
  (uint32 n.toUInt32).map UInt32.toInt32

theorem int64 (n : Int64) : Restores (Writer.int64 n) Reader.int64 n :=
  (uint64 n.toUInt64).map UInt64.toInt64

theorem double (x : Double) : Restores (Writer.double x) Reader.double x :=
  (uint64 x.bits).map Double.mk

theorem boolean (b : Bool) : Restores (Writer.boolean b) Reader.boolean b := by
  cases b with
  | true => exact (uint8 1).andThen fun _ => rfl
  | false => exact (uint8 0).andThen fun _ => rfl

theorem lengthBytes (content : Bytes) :
    Restores (Writer.lengthBytes content) Reader.bytes content := by
  apply guarded
  intro hlength
  -- The length fits its prefix, so what is read back from there is the length itself.
  have hprefix := (word 4 hlength).map UInt32.ofNat
  apply hprefix.bind
  rw [UInt32.toNat_ofNat_of_lt' hlength]
  exact put content

theorem textOf (text : String) (r : Reader) :
    Reader.textOf (Utf8.encode text) r = (.ok text, r) := by
  rw [Reader.textOf, Utf8.decode_eq_ok_iff.mpr rfl]
  rfl

theorem string (text : String) : Restores (Writer.string text) Reader.string text :=
  (lengthBytes _).andThen (textOf text)

theorem shortString (text : String) :
    Restores (Writer.shortString text) Reader.shortString text := by
  apply guarded
  intro hlength
  have hprefix := (word 2 hlength).map UInt16.ofNat
  apply hprefix.bind
  rw [UInt16.toNat_ofNat_of_lt' hlength]
  exact (put _).andThen (textOf text)

theorem optional {write : α → Write Unit} (h : ∀ a, Restores (write a) read a) (o : Option α) :
    Restores (Writer.optional write o) (Reader.optional read) o := by
  cases o with
  | none => exact (boolean false).andThen fun _ => rfl
  | some a => exact (boolean true).bind ((h a).map some)

end Restores

theorem Field.restores (f : Field) (value : f.Value) : Restores (f.write value) f.read value := by
  cases f with
  | uint8 => exact .uint8 value
  | boolean => exact .boolean value
  | uint16 => exact .uint16 value
  | uint32 => exact .uint32 value
  | int32 => exact .int32 value
  | uint64 => exact .uint64 value
  | int64 => exact .int64 value
  | double => exact .double value
  | bytes => exact .lengthBytes value
  | string => exact .string value
  | shortString => exact .shortString value
  | optionalString => exact .optional .string value

theorem restores_all (data : List Datum) :
    Restores (Datum.writeAll data) (Field.readAll (data.map Datum.field)) data := by
  induction data with
  | nil => exact .pure []
  | cons datum rest ih => exact (datum.field.restores datum.value).bind (ih.map _)

/-! ## Writers stay within their limit -/

namespace Writer

/-- A second writer has come from the first one: if the first is within its limit, so is the
second. -/
structure Grows (w v : Writer) : Prop where
  limit_eq : v.limit = w.limit
  within : ∀ max, w.limit = some max → w.written.size ≤ max → v.written.size ≤ max

theorem Grows.refl (w : Writer) : w.Grows w :=
  ⟨rfl, fun _ _ => id⟩

theorem Grows.trans {w v u : Writer} (h : w.Grows v) (h' : v.Grows u) : w.Grows u where
  limit_eq := h'.limit_eq.trans h.limit_eq
  within max hlimit hsize :=
    h'.within max (h.limit_eq.trans hlimit) (h.within max hlimit hsize)

/-- A write that stays within the limit, failed or not. -/
abbrev Confined (write : Write Unit) : Prop :=
  Moves Grows write

namespace Confined

variable {write write' : Write Unit}

theorem bind (h : Confined write) (h' : Confined write') :
    Confined (write >>= fun _ => write') :=
  Moves.bind h (fun _ => h') Grows.trans

theorem guarded {p : Prop} [Decidable p] {fault : Fault} (h : Confined write) :
    Confined (if p then write else throw fault) := by
  split_ifs
  · exact h
  · exact Moves.throw Grows.refl fault

theorem put (content : Bytes) : Confined (put content) := by
  rintro ⟨written, limit⟩
  rw [Writer.put]
  split_ifs with hfull
  · exact .refl _
  · refine ⟨rfl, ?_⟩
    rintro max rfl -
    have hfits : written.size + content.length ≤ max := by simpa [isFullFor] using hfull
    exact (Bytes.size_append written content).trans_le hfits

theorem word (width n : Nat) : Confined (word width n) :=
  put _

theorem lengthBytes (content : Bytes) : Confined (lengthBytes content) :=
  guarded ((word _ _).bind (put _))

theorem field (f : Field) (value : f.Value) : Confined (f.write value) := by
  cases f with
  | bytes => exact lengthBytes value
  | string => exact lengthBytes _
  | shortString => exact guarded ((word _ _).bind (put _))
  | optionalString =>
    cases value with
    | none => exact word _ _
    | some text => exact (word _ _).bind (lengthBytes _)
  | _ => exact word _ _

end Confined

/-- The calls that can be made on a writer. -/
inductive Call
  | datum (datum : Datum)
  | put (content : Bytes)

def Call.perform : Call → Write Unit
  | datum ⟨field, value⟩ => field.write value
  | put content => Writer.put content

/-- The writer after some calls, whatever became of each. -/
def after (w : Writer) (calls : List Call) : Writer :=
  calls.foldl (fun w call => (call.perform w).2) w

theorem Call.confined (call : Call) : Confined call.perform := by
  cases call with
  | datum datum => exact .field datum.field datum.value
  | put content => exact .put content

theorem grows_after (w : Writer) (calls : List Call) : w.Grows (w.after calls) :=
  Moves.foldl Grows.refl Grows.trans Call.confined calls w

end Writer

/-! ## Reads end behind the last whole part -/

namespace Reader

/-- The parts in which a read takes its bytes. What stands in one says which one is next, if any. -/
inductive Layout
  | done
  | part (width : Nat) (next : Bytes → Layout)

namespace Layout

/-- How many bytes lie in the parts that are there whole, up to the first one that is not. -/
def whole : Layout → Bytes → Nat
  | done, _ => 0
  | part width next, bytes =>
    if width ≤ bytes.length then width + (next (bytes.take width)).whole (bytes.drop width) else 0

/-- The width of the first part that is not there whole. -/
def missing : Layout → Bytes → Option Nat
  | done, _ => none
  | part width next, bytes =>
    if width ≤ bytes.length then (next (bytes.take width)).missing (bytes.drop width)
    else some width

def fixed (width : Nat) : Layout :=
  part width fun _ => done

/-- Bytes behind their length. -/
def prefixed (width : Nat) : Layout :=
  part width fun length => fixed length.toNat

def optional (layout : Layout) : Layout :=
  part 1 fun present => if UInt8.ofNat present.toNat = 1 then layout else done

theorem whole_le (layout : Layout) (bytes : Bytes) : layout.whole bytes ≤ bytes.length := by
  induction layout generalizing bytes with
  | done => exact Nat.zero_le _
  | part width next ih =>
    rw [whole]
    split_ifs with hwidth
    · have hrest := ih (bytes.take width) (bytes.drop width)
      rw [List.length_drop] at hrest
      omega
    · exact Nat.zero_le _

theorem whole_fixed_of_missing {width needed : Nat} {bytes : Bytes}
    (h : (fixed width).missing bytes = some needed) : (fixed width).whole bytes = 0 := by
  rw [fixed, missing] at h
  rw [fixed, whole]
  split_ifs at h ⊢ with hwidth
  · cases h
  · rfl

end Layout

def forward (r : Reader) (n : Nat) : Reader :=
  ⟨r.rest.drop n, r.pos + n⟩

theorem ahead_forward {r : Reader} {n : Nat} (h : n ≤ r.rest.length) : r.Ahead (r.forward n) :=
  ⟨r.rest.take n, (List.take_append_drop n r.rest).symm,
    congrArg (r.pos + ·) (List.length_take_of_le h).symm⟩

/-- A read that, failed or not, takes all parts up to the first one that is not there whole. There it
fails, and says how much is missing. -/
structure Takes (layout : Layout) (read : Read α) : Prop where
  behind : ∀ r, (read r).2 = r.forward (layout.whole r.rest)
  underflow_iff : ∀ r needed available,
    (read r).1 = .error (.bufferUnderflow needed available) ↔
      layout.missing r.rest = some needed ∧ available = (read r).2.remaining

namespace Takes

variable {layout : Layout} {read : Read α} {next : α → Read β}

theorem steady (h : Takes layout read) : Steady read := by
  intro r
  rw [h.behind]
  exact ahead_forward (layout.whole_le r.rest)

theorem pure (a : α) : Takes .done (Pure.pure a) where
  behind _ := rfl
  underflow_iff r needed available := by
    constructor
    · intro h
      cases h
    · rintro ⟨h, -⟩
      cases h

/-- A read that takes nothing, since what was read before is not what it should be. -/
theorem violation (v : Violation) : Takes .done (throw (.protocol v) : Read α) where
  behind _ := rfl
  underflow_iff r needed available := by
    constructor
    · intro h
      cases h
    · rintro ⟨h, -⟩
      cases h

/-- A part, and then what stands in it says how to read on. -/
theorem part {n : Nat} {layout : Bytes → Layout} {next : Bytes → Read α}
    (h : ∀ content, content.length = n → Takes (layout content) (next content)) :
    Takes (.part n layout) (take n >>= next) := by
  have hwhole : ∀ r : Reader, n ≤ r.rest.length → (take n >>= next) r =
      next (r.rest.take n) (r.forward n) := by
    intro r hn
    exact bind_of_ok ((take_apply n r).trans (if_pos hn))
  have hshort : ∀ r : Reader, ¬ n ≤ r.rest.length → (take n >>= next) r =
      (.error (.bufferUnderflow n r.remaining), r) := by
    intro r hn
    exact bind_of_error ((take_apply n r).trans (if_neg hn))
  constructor
  · intro r
    rw [Layout.whole]
    split_ifs with hn
    · rw [hwhole r hn, (h _ (List.length_take_of_le hn)).behind]
      simp only [forward, List.drop_drop, Nat.add_assoc]
    · rw [hshort r hn]
      rfl
  · intro r needed available
    rw [Layout.missing]
    split_ifs with hn
    · rw [hwhole r hn]
      exact (h _ (List.length_take_of_le hn)).underflow_iff _ _ _
    · rw [hshort r hn]
      simp [eq_comm]

/-- A second step that takes nothing. -/
theorem andThen (h : Takes layout read) (hnext : ∀ a, Takes .done (next a)) :
    Takes layout (read >>= next) := by
  have hsame : ∀ r, ((read >>= next) r).2 = (read r).2 := by
    intro r
    rcases hread : read r with ⟨fault | a, s⟩
    · rw [bind_of_error hread]
    · rw [bind_of_ok hread]
      exact (hnext a).behind s
  constructor
  · intro r
    rw [hsame, h.behind]
  · intro r needed available
    rw [hsame, ← h.underflow_iff]
    rcases hread : read r with ⟨fault | a, s⟩
    · rw [bind_of_error hread, Except.error.injEq, Except.error.injEq]
    · rw [bind_of_ok hread, (hnext a).underflow_iff]
      simp [Layout.missing]

theorem take (n : Nat) : Takes (.fixed n) (take n) := by
  rw [← bind_pure (Reader.take n)]
  exact part fun content _ => pure content

/-- A number, and then what the number says. -/
theorem wordThen {width : Nat} {layout : Nat → Layout} {next : Nat → Read α}
    (h : ∀ n < 256 ^ width, Takes (layout n) (next n)) :
    Takes (.part width fun content => layout content.toNat) (word width >>= next) := by
  rw [Reader.word, bind_assoc]
  simp only [pure_bind]
  apply part
  intro content hlength
  exact h _ (hlength ▸ Bytes.toNat_lt content)

theorem word (width : Nat) : Takes (.fixed width) (word width) :=
  (take width).andThen fun _ => pure _

theorem uint8 : Takes (.fixed 1) uint8 := (word 1).andThen fun _ => pure _

theorem uint16 : Takes (.fixed 2) uint16 := (word 2).andThen fun _ => pure _

theorem uint32 : Takes (.fixed 4) uint32 := (word 4).andThen fun _ => pure _

theorem uint64 : Takes (.fixed 8) uint64 := (word 8).andThen fun _ => pure _

theorem boolean : Takes (.fixed 1) boolean := by
  apply uint8.andThen
  intro byte
  split
  · exact pure _
  · exact pure _
  · exact violation _

theorem bytes : Takes (.prefixed 4) bytes := by
  rw [Reader.bytes, Reader.uint32, bind_assoc]
  simp only [pure_bind]
  apply wordThen
  intro length hlength
  rw [UInt32.toNat_ofNat_of_lt' hlength]
  exact take length

theorem textOf (content : Bytes) : Takes .done (textOf content) := by
  unfold Reader.textOf
  split
  · exact pure _
  · exact violation _

theorem string : Takes (.prefixed 4) string :=
  bytes.andThen textOf

theorem shortString : Takes (.prefixed 2) shortString := by
  rw [Reader.shortString, Reader.uint16, bind_assoc]
  simp only [pure_bind]
  apply wordThen
  intro length hlength
  rw [UInt16.toNat_ofNat_of_lt' hlength]
  exact (take length).andThen textOf

theorem uint8Then (layout : UInt8 → Layout) {next : UInt8 → Read α}
    (h : ∀ byte, Takes (layout byte) (next byte)) :
    Takes (.part 1 fun content => layout (UInt8.ofNat content.toNat)) (Reader.uint8 >>= next) := by
  rw [Reader.uint8, bind_assoc]
  simp only [pure_bind]
  exact wordThen fun n _ => h (UInt8.ofNat n)

theorem optional (h : Takes layout read) : Takes layout.optional (optional read) := by
  rw [Reader.optional, Reader.boolean, bind_assoc]
  apply uint8Then fun byte => if byte = 1 then layout else .done
  intro byte
  -- The content is read behind the byte 1 only: 0 says that there is none, and other bytes fail.
  by_cases hone : byte = 1
  · rw [hone]
    exact h.andThen fun _ => pure _
  · rw [if_neg hone]
    split
    · exact pure _
    · exact absurd rfl hone
    · exact violation _

end Takes

end Reader

/-- The parts in which a field is read. -/
def Field.layout : Field → Reader.Layout
  | uint8 | boolean => .fixed 1
  | uint16 => .fixed 2
  | uint32 | int32 => .fixed 4
  | uint64 | int64 | double => .fixed 8
  | bytes | string => .prefixed 4
  | shortString => .prefixed 2
  | optionalString => .optional (.prefixed 4)

theorem Field.takes (f : Field) : Reader.Takes f.layout f.read := by
  cases f with
  | uint8 => exact .uint8
  | boolean => exact .boolean
  | uint16 => exact .uint16
  | uint32 => exact .uint32
  | int32 => exact Reader.Takes.uint32.andThen fun _ => .pure _
  | uint64 => exact .uint64
  | int64 => exact Reader.Takes.uint64.andThen fun _ => .pure _
  | double => exact Reader.Takes.uint64.andThen fun _ => .pure _
  | bytes => exact .bytes
  | string => exact .string
  | shortString => exact .shortString
  | optionalString => exact .optional .string

namespace Reader

/-- The calls that can be made on a reader. -/
inductive Call
  | field (field : Field)
  | take (n : Nat)
  | skip (n : Nat)

namespace Call

def perform : Call → Read Unit
  | field f => do
    let _ ← f.read
  | take n => do
    let _ ← Reader.take n
  | skip n => Reader.skip n

def layout : Call → Layout
  | field f => f.layout
  | take n | skip n => .fixed n

theorem takes (call : Call) : Takes call.layout call.perform := by
  cases call with
  | field f => exact f.takes.andThen fun _ => .pure _
  | take n => exact (Takes.take n).andThen fun _ => .pure _
  | skip n => exact (Takes.take n).andThen fun _ => .pure _

end Call

/-- The reader after some calls, whatever became of each. -/
def after (r : Reader) (calls : List Call) : Reader :=
  calls.foldl (fun r call => (call.perform r).2) r

theorem ahead_after (r : Reader) (calls : List Call) : r.Ahead (r.after calls) :=
  Moves.foldl Ahead.refl Ahead.trans (fun call => call.takes.steady) calls r

/-- A reader ahead of the beginning stands at its position in the bytes. -/
theorem Ahead.of_bytes {bytes : Bytes} {r : Reader} (h : (ofBytes bytes).Ahead r) :
    r.pos ≤ bytes.length ∧ r.rest = bytes.drop r.pos := by
  obtain ⟨taken, hbytes, hpos⟩ := h
  replace hbytes : bytes = taken ++ r.rest := hbytes
  replace hpos : r.pos = taken.length := hpos.trans (Nat.zero_add _)
  rw [hbytes, hpos, List.length_append, List.drop_left]
  exact ⟨Nat.le_add_right _ _, rfl⟩

/-- A call neither goes back nor passes the end. It takes its parts up to the first one that is not
there whole, and fails for want of bytes just where there is such a one; of a single part it takes
all or nothing. -/
structure Call.Orderly (call : Call) (bytes : Bytes) (r : Reader) : Prop where
  pos_le : r.pos ≤ (call.perform r).2.pos
  le_length : (call.perform r).2.pos ≤ bytes.length
  rest_eq : (call.perform r).2.rest = bytes.drop (call.perform r).2.pos
  pos_eq : (call.perform r).2.pos = r.pos + call.layout.whole (bytes.drop r.pos)
  underflow_iff : ∀ needed available,
    (call.perform r).1 = .error (.bufferUnderflow needed available) ↔
      call.layout.missing (bytes.drop r.pos) = some needed ∧
        available = bytes.length - (call.perform r).2.pos
  unchanged : ∀ width needed available, call.layout = .fixed width →
    (call.perform r).1 = .error (.bufferUnderflow needed available) → (call.perform r).2 = r

theorem Call.orderly (call : Call) {bytes : Bytes} {r : Reader} (h : (ofBytes bytes).Ahead r) :
    call.Orderly bytes r := by
  have hstep := call.takes.steady r
  have hbehind := call.takes.behind r
  have hunderflow := call.takes.underflow_iff r
  obtain ⟨hend, hrest⟩ := (h.trans hstep).of_bytes
  rw [h.of_bytes.2] at hbehind hunderflow
  refine ⟨hstep.pos_le, hend, hrest, congrArg Reader.pos hbehind, ?_, ?_⟩
  · have hremaining : (call.perform r).2.remaining = bytes.length - (call.perform r).2.pos := by
      rw [remaining, hrest, List.length_drop]
    rw [← hremaining]
    exact hunderflow
  · intro width needed available hfixed hshort
    have hmissing := ((hunderflow needed available).mp hshort).1
    rw [hfixed] at hmissing
    rw [hbehind, hfixed, Layout.whole_fixed_of_missing hmissing]
    rfl

end Reader

/-- **What is written field by field is read back.** Data that were all written, with or without a
limit, are read by the same fields in their order, and nothing remains. A writer does not pass its
limit, whatever was tried on it. And whatever the bytes are and whatever calls were made before,
failed ones among them, every call on a reader is orderly. -/
theorem fields_read_back :
    (∀ limit data w, Datum.writeAll data (.empty limit) = (.ok (), w) →
      Field.readAll (data.map Datum.field) (.ofBytes w.bytes) = (.ok data, ⟨[], w.bytes.length⟩)) ∧
    (∀ max calls, ((Writer.empty (some max)).after calls).bytes.length ≤ max) ∧
    ∀ bytes calls (call : Reader.Call), call.Orderly bytes ((Reader.ofBytes bytes).after calls) := by
  refine ⟨?_, ?_, ?_⟩
  · intro limit data w hwrite
    obtain ⟨written, hbytes, hread⟩ := restores_all data _ _ hwrite
    replace hbytes : w.bytes = written := hbytes
    have hwhole := hread [] 0
    rw [List.append_nil, Nat.zero_add] at hwhole
    rw [hbytes]
    exact hwhole
  · intro max calls
    have hgrows := Writer.grows_after (.empty (some max)) calls
    exact hgrows.within max rfl (Nat.zero_le max)
  · intro bytes calls call
    exact call.orderly (Reader.ahead_after (.ofBytes bytes) calls)

/-- A number, a name and a note that is not there. -/
def noteData : List Datum :=
  [⟨.uint16, 0x1234⟩, ⟨.shortString, "é"⟩, ⟨.optionalString, none⟩]

/-- A byte that is no truth value, and a text of which the end is missing. -/
def brokenBytes : Bytes :=
  [7, 0, 0, 0, 2, 65]

theorem fields_read_back_noteData :
    Datum.writeAll noteData (.empty (some 7)) =
      (.ok (), ⟨#[0x12, 0x34, 0, 2, 0xc3, 0xa9, 0], some 7⟩) ∧
    Field.readAll [.uint16, .shortString, .optionalString]
      (.ofBytes [0x12, 0x34, 0, 2, 0xc3, 0xa9, 0]) = (.ok noteData, ⟨[], 7⟩) ∧
    ((Writer.empty (some 3)).after [.datum ⟨.bytes, [1, 2]⟩, .datum ⟨.uint16, 5⟩]).bytes.length ≤ 3 ∧
    ((Reader.Call.field .string).perform
      ((Reader.ofBytes brokenBytes).after [.field .boolean])).2.pos = 5 ∧
    ((Reader.Call.field .string).perform
      ((Reader.ofBytes brokenBytes).after [.field .boolean])).1 = .error (.bufferUnderflow 2 1) := by
  obtain ⟨hback, hlimit, horderly⟩ := fields_read_back
  have hwrite : Datum.writeAll noteData (.empty (some 7)) =
      (.ok (), ⟨#[0x12, 0x34, 0, 2, 0xc3, 0xa9, 0], some 7⟩) := by rfl
  have hstring := horderly brokenBytes [.field .boolean] (.field .string)
  have hpos : ((Reader.Call.field .string).perform
      ((Reader.ofBytes brokenBytes).after [.field .boolean])).2.pos = 5 :=
    hstring.pos_eq.trans (by rfl)
  refine ⟨hwrite, hback (some 7) noteData _ hwrite, hlimit 3 _, hpos, ?_⟩
  rw [hstring.underflow_iff, hpos]
  exact ⟨by rfl, rfl⟩

end QueryClient

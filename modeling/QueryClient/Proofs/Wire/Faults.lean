import QueryClient.Proofs.Wire.Nesting

/-!
# What reads fail with

A read that meets no tag can only fail because the bytes are malformed: there are too few of them,
or they say what no byte may say there. It never refuses a type name.
-/

namespace QueryClient

open Operation

variable {α : Type}

/-- The bytes break the protocol, and not by a type name. -/
def Fault.Malformed (fault : Fault) : Prop :=
  fault.classOf = .protocolCorruption ∧ ∀ name, fault ≠ .disallowedType name

theorem Fault.malformed_underflow (needed available : Nat) :
    (bufferUnderflow needed available).Malformed :=
  ⟨rfl, nofun⟩

/-- A read that fails on malformed bytes only. -/
abbrev Operation.Plain {S : Type} (r : ExceptT Fault (StateM S) α) : Prop :=
  Faults Fault.Malformed r

namespace Reader

theorem plain_take (n : Nat) : Plain (take n) := by
  intro reader fault h
  rw [take_apply] at h
  split_ifs at h
  cases h
  exact Fault.malformed_underflow ..

theorem plain_word (width : Nat) : Plain (word width) :=
  (plain_take width).bind fun _ => .pure _

theorem plain_uint8 : Plain uint8 := (plain_word 1).bind fun _ => .pure _

theorem plain_uint16 : Plain uint16 := (plain_word 2).bind fun _ => .pure _

theorem plain_uint32 : Plain uint32 := (plain_word 4).bind fun _ => .pure _

theorem plain_uint64 : Plain uint64 := (plain_word 8).bind fun _ => .pure _

theorem plain_int32 : Plain int32 := plain_uint32.bind fun _ => .pure _

theorem plain_int64 : Plain int64 := plain_uint64.bind fun _ => .pure _

theorem plain_double : Plain double := plain_uint64.bind fun _ => .pure _

theorem plain_boolean : Plain boolean := by
  apply plain_uint8.bind
  intro byte
  split
  · exact .pure _
  · exact .pure _
  · exact .throw ⟨rfl, nofun⟩

theorem plain_bytes : Plain bytes := plain_uint32.bind fun _ => plain_take _

theorem plain_textOf (content : Bytes) : Plain (textOf content) := by
  unfold textOf
  split
  · exact .pure _
  · exact .throw ⟨rfl, nofun⟩

theorem plain_string : Plain string := plain_bytes.bind plain_textOf

theorem plain_shortString : Plain shortString :=
  plain_uint16.bind fun _ => (plain_take _).bind plain_textOf

theorem plain_optional {read : Read α} (hr : Plain read) : Plain (optional read) := by
  apply plain_boolean.bind
  intro present
  split
  · exact hr.bind fun _ => .pure _
  · exact .pure _

theorem plain_times {read : Read α} (hr : Plain read) (n : Nat) (before : List α) :
    Plain (times read n before) := by
  induction n generalizing before with
  | zero => exact .pure _
  | succ n ih => exact hr.bind fun a => ih (a :: before)

end Reader

namespace Decoder

open Reader

theorem plain_read {read : Read α} (hr : Plain read) : Plain (liftM read : Decode α) := by
  rintro ⟨reader, slots, depth, allowed⟩ fault h
  exact hr reader fault h

theorem plain_ofExcept {outcome : Except Fault α}
    (h : ∀ fault, outcome = .error fault → fault.Malformed) :
    Plain (liftM outcome : Decode α) := by
  cases outcome with
  | ok a => exact .pure a
  | error fault => exact .throw (h fault rfl)

theorem plain_coded {ofCode : UInt8 → Except Fault α}
    (h : ∀ code fault, ofCode code = .error fault → fault.Malformed) : Plain (coded ofCode) :=
  (plain_read plain_uint8).bind fun code => plain_ofExcept (h code)

theorem plain_lobKind : Plain (coded LobKind.ofCode) := by
  apply plain_coded
  intro code fault h
  unfold LobKind.ofCode at h
  split at h <;> cases h
  exact ⟨rfl, nofun⟩

theorem plain_authType : Plain (coded AuthType.ofCode) := by
  apply plain_coded
  intro code fault h
  unfold AuthType.ofCode at h
  split at h <;> cases h
  exact ⟨rfl, nofun⟩

theorem plain_cursorType : Plain (coded CursorType.ofCode) := by
  apply plain_coded
  intro code fault h
  unfold CursorType.ofCode at h
  split at h <;> cases h
  exact ⟨rfl, nofun⟩

theorem plain_service : Plain (coded Service.ofCode) := by
  apply plain_coded
  intro code fault h
  unfold Service.ofCode at h
  split at h <;> cases h
  exact ⟨rfl, nofun⟩

theorem plain_kind (code : UInt8) : Plain (liftM (Kind.ofCode code) : Decode Kind) := by
  apply plain_ofExcept
  intro fault h
  unfold Kind.ofCode at h
  split at h <;> cases h
  exact ⟨rfl, nofun⟩

theorem plain_lob : Plain lob := by
  apply plain_lobKind.bind
  intro kind
  apply (plain_read plain_uint16).bind
  intro index
  refine Faults.bind (.sure fun d => ⟨d, rfl⟩) fun d => ?_
  dsimp only
  split
  · exact Faults.bind (.sure fun _ => ⟨_, rfl⟩) fun _ => .pure _
  · exact .throw ⟨rfl, nofun⟩

theorem plain_reference : Plain reference :=
  (plain_read plain_string).bind fun _ => plain_lobKind.bind fun _ =>
    (plain_read plain_int64).bind fun _ => .pure _

theorem plain_handshakeBody : Plain handshakeBody :=
  (plain_read plain_uint8).bind fun _ => (plain_read plain_string).bind fun _ =>
    plain_authType.bind fun _ => .pure _

theorem plain_exceptionBody : Plain exceptionBody :=
  (plain_read (plain_optional plain_string)).bind fun _ =>
    (plain_read (plain_optional plain_string)).bind fun _ =>
      (plain_read plain_string).bind fun _ => .pure _

theorem plain_chunkBody : Plain chunkBody :=
  (plain_read plain_bytes).bind fun _ => (plain_read plain_boolean).bind fun _ => .pure _

theorem plain_property : Plain property :=
  plain_string.bind fun _ => plain_string.bind fun _ => .pure _

theorem plain_logonRequestBody : Plain logonRequestBody :=
  (plain_read (plain_optional plain_string)).bind fun _ =>
    (plain_read (plain_optional plain_string)).bind fun _ =>
      (plain_read (plain_optional plain_bytes)).bind fun _ =>
        (plain_read plain_uint32).bind fun _ =>
          (plain_read (plain_times plain_property _ _)).bind fun _ => .pure _

theorem plain_logonResultBody : Plain logonResultBody :=
  (plain_read plain_string).bind fun _ => (plain_read plain_string).bind fun _ =>
    (plain_read (plain_optional plain_bytes)).bind fun _ => .pure _

theorem plain_column : Plain column :=
  plain_string.bind fun _ => plain_shortString.bind fun _ => .pure _

theorem plain_deeper {read : Decode α} (hr : Plain read) : Plain (deeper read) := by
  rintro ⟨reader, slots, depth, allowed⟩ fault h
  exact hr ⟨reader, slots, depth + 1, allowed⟩ fault h

theorem plain_nested {read : Decode α} (hr : Plain read) (levels : Nat) :
    Plain (nested levels read) := by
  cases levels with
  | zero => exact .throw ⟨rfl, nofun⟩
  | succ levels => exact plain_deeper hr

end Decoder

end QueryClient

import QueryClient.Proofs.Wire.Arrival
import QueryClient.Proofs.Wire.Refusing

/-!
# Which frames a peer accepts

A peer with the limits of the encoder takes a frame by more than its payload, whose length is all
that the encoder keeps to. It also limits how deep values are nested and how much content there is
behind the payload, and drops a frame that goes past either as corrupt. What is encoded is accepted
exactly when it stays within both (`accepts_iff_within`).
-/

namespace QueryClient.Frame

open Format Operation

variable {allowed : AllowList} {m m' : Message} {limit max : Nat} {frame : Bytes}

/-- Whatever a frame is refused for makes it corrupt. -/
theorem corrupt_of_decode {fault : Fault} (h : decode allowed max frame = .error fault) :
    fault.classOf = .protocolCorruption := by
  unfold decode at h
  split at h
  · next hpayload =>
    cases h
    exact (plain_payload max _ _ (congrArg Prod.fst hpayload)).1
  split at h
  · next hbody =>
    cases h
    exact corrupt_of_decodePayload hbody
  split at h
  · next hcontents =>
    cases h
    exact (Appendix.malformed_of_readAll (congrArg Prod.fst hcontents)).1
  split at h
  · cases h
  · cases h
    rfl

/-- A name that is permitted is not registered. -/
theorem unregistered_of_resolve
    (hnames : ∀ typeName parts, .named typeName parts ∈ m.parts →
      allowed.resolve typeName = .ok none) : ∀ part ∈ m.parts, part.Unregistered := by
  intro part hpart
  cases part with
  | named typeName parts =>
    rintro kind rfl
    have hresolve := hnames _ _ hpart
    rw [AllowList.resolve, Kind.ofName?_eq_some_iff.mpr rfl] at hresolve
    cases hresolve
  | _ => trivial

/-- A message whose values are nested no deeper than decoders go, with no more content than the
limit. -/
structure Within (limit : Nat) (m : Message) : Prop where
  height_le : m.height ≤ Decoder.maxDepth
  total_le : (m.contents.map List.length).sum ≤ limit

/-- **What a peer accepts.** Where every name in a message is permitted, its frame is accepted under
the limit it was encoded with exactly when the message is nested no deeper than decoders go and its
contents stay within the limit. Otherwise the frame is corrupt, and one that is accepted gives the
message as its body says it, with the contents bound. -/
theorem accepts_iff_within {tagsByCode : Bool} (hlimit : limit < 2 ^ 32)
    (hnames : ∀ typeName parts, .named typeName parts ∈ m.parts →
      allowed.resolve typeName = .ok none)
    (hencode : encode ⟨tagsByCode, limit⟩ m = .ok frame) :
    ((∃ m', decode allowed limit frame = .ok m') ↔ Within limit m) ∧
      (∀ m', decode allowed limit frame = .ok m' → m' = m.asSent.bind m.contents) ∧
      ∀ fault, decode allowed limit frame = .error fault →
        fault.classOf = .protocolCorruption := by
  have hunregistered := unregistered_of_resolve hnames
  refine ⟨⟨?_, fun hwithin => ?_⟩, fun m' hdecode => ?_, fun fault => corrupt_of_decode⟩
  · rintro ⟨m', hdecode⟩
    obtain ⟨-, hheight, htotal⟩ := of_decode_encode hlimit hunregistered hencode hdecode
    exact ⟨hheight, htotal⟩
  · have hpermitted : ∀ part ∈ m.parts, part.Permitted allowed := by
      intro part hpart
      cases part with
      | named typeName parts => exact hnames typeName parts hpart
      | _ => trivial
    have hdecode := decode_encode_of_permitted hlimit hpermitted hwithin.height_le hwithin.total_le
      hencode
    exact ⟨_, hdecode⟩
  · exact (of_decode_encode hlimit hunregistered hencode hdecode).1

theorem accepts_iff_within_sampleBatch : ∃ frame, encode ⟨false, 4096⟩ sampleBatch = .ok frame ∧
    ((∃ m', decode (AllowList.empty.allow "a.B") 4096 frame = .ok m') ↔
      Within 4096 sampleBatch) := by
  have hok : (encode ⟨false, 4096⟩ sampleBatch).isOk = true := by decide +kernel
  cases hframe : encode ⟨false, 4096⟩ sampleBatch with
  | error fault =>
    rw [hframe] at hok
    cases hok
  | ok frame =>
    refine ⟨frame, rfl, (accepts_iff_within (by decide) ?_ hframe).1⟩
    intro typeName parts hmem
    simp [sampleBatch, Message.parts, Value.parts, partsOfRows, partsOfEach] at hmem
    rw [hmem.1]
    decide

/-- A list in a list, and so on, with nothing in the last. -/
def nested : Nat → Value
  | 0 => .list []
  | n + 1 => .list [nested n]

/-- A call with one argument. -/
def callWith (v : Value) : Message :=
  .invocation ⟨1, .dqp, "m", [v]⟩

/-- The fault that an encoded message is refused for by a peer with the same limit. -/
def refusal? (allowed : AllowList) (limit : Nat) (m : Message) : Option Fault :=
  match encode ⟨true, limit⟩ m with
  | .error _ => none
  | .ok frame =>
    match decode allowed limit frame with
    | .error fault => some fault
    | .ok _ => none

def isTooDeep : Option Fault → Bool
  | some (.protocol .nestingTooDeep) => true
  | _ => false

theorem eq_of_isTooDeep {fault? : Option Fault} (h : isTooDeep fault? = true) :
    fault? = some (.protocol .nestingTooDeep) := by
  unfold isTooDeep at h
  split at h
  · rfl
  · cases h

def isTooLarge (size max : Nat) : Option Fault → Bool
  | some (.frameTooLarge n limit) => n == size && limit == max
  | _ => false

theorem eq_of_isTooLarge {size max : Nat} {fault? : Option Fault}
    (h : isTooLarge size max fault? = true) : fault? = some (.frameTooLarge size max) := by
  unfold isTooLarge at h
  split at h
  · obtain ⟨rfl, rfl⟩ : _ = size ∧ _ = max := by simpa using h
    rfl
  · cases h

/-- A call whose argument is nested too deep, and one with more content than the limit, are encoded
all the same. -/
theorem encoded_calls_refused :
    refusal? .empty 4096 (callWith (nested 63)) = some (.protocol .nestingTooDeep) ∧
    refusal? .empty 24 (callWith (.lob ⟨.blob, some (List.replicate 25 0)⟩)) =
      some (.frameTooLarge 25 24) := by
  have hdeep : isTooDeep (refusal? .empty 4096 (callWith (nested 63))) = true := by
    decide +kernel
  have hlarge : isTooLarge 25 24
      (refusal? .empty 24 (callWith (.lob ⟨.blob, some (List.replicate 25 0)⟩))) = true := by
    decide +kernel
  exact ⟨eq_of_isTooDeep hdeep, eq_of_isTooLarge hlarge⟩

end QueryClient.Frame

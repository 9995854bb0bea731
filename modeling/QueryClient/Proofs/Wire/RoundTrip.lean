import QueryClient.Proofs.Wire.Appendix
import QueryClient.Proofs.Wire.Nesting
import QueryClient.Proofs.Wire.Writing
import QueryClient.Wire.Frame

/-!
# Frames round-trip

A payload decodes exactly when the grammar has it, and an encoded payload is one that the grammar
has. With the contents behind it, a frame gives back the message that was encoded.
-/

namespace QueryClient

open Format Operation

variable {allowed : AllowList} {m : Message} {limit : Nat}

/-- The bytes of a payload: the version, and a tagged message. -/
def Format.payload (allowed : AllowList) (m : Message) : Format :=
  fields [byte Frame.version, message allowed m]

namespace Reads

theorem messageWithin (levels : Nat) : Reads allowed (Decoder.valueWithin levels >>= fun v =>
      match v with
      | .message m => return m
      | other => MonadExcept.throw (.unexpectedMessage "message" other.typeName))
    fun m => (Format.message allowed m).given (m.height ≤ levels) := by
  refine congr (f := fun m => (fields [(Format.value allowed (.message m)).given
    ((Value.message m).height ≤ levels)]).given True) ?_ fun m => ?_
  · apply (valueWithin levels).field Value.message
    intro v
    cases v with
    | message m =>
      apply done
      intro m'
      simp [eq_comm]
    | _ => exact throw _ (by simp)
  · rw [given_true, fields_singleton, value_message, Value.height]

/-- The length of a payload is checked before the payload is taken. -/
theorem framePayload (max : Nat) : Reads allowed (liftM (Frame.payload max)) fun content =>
    (lengthBytes content).given (Frame.checkLength content.length max = .ok ()) := by
  rw [Frame.payload]
  simp only [Decode.liftM_bind]
  refine congr (f := fun content : Bytes => (fields [any fun n : UInt32 =>
    (Format.uint32 n).given (content.length = n.toNat), exactly content]).given
      (Frame.checkLength content.length max = .ok ())) ?_ fun content => ?_
  · apply uint32.part (fun n (content : Bytes) => content.length = n.toNat)
    intro n
    cases hcheck : Frame.checkLength n.toNat max with
    | error fault =>
      apply throw fault
      rintro content ⟨hok, hlength⟩
      rw [hlength, hcheck] at hok
      cases hok
    | ok _ =>
      apply (take n.toNat).congr
      intro content
      rw [fields_singleton]
      refine given_congr ⟨fun hlength => ⟨?_, hlength⟩, And.right⟩ fun _ => rfl
      rw [hlength, hcheck]
  · rw [any_length_uint32, fields_cons, given_seq]
    rfl

/-- A message read outside of any value may have all levels. -/
theorem message_apply (reader : Reader) (slots : Array LobKind) :
    Decoder.message ⟨reader, slots, 0, allowed⟩ =
      (Decoder.valueWithin Decoder.maxDepth >>= fun v =>
        match v with
        | .message m => return m
        | other => MonadExcept.throw (.unexpectedMessage "message" other.typeName) : Decode Message)
        ⟨reader, slots, 0, allowed⟩ := by
  have hvalue : Decoder.value ⟨reader, slots, 0, allowed⟩ =
      Decoder.valueWithin Decoder.maxDepth ⟨reader, slots, 0, allowed⟩ := by
    rw [Decoder.value, bind_of_ok (a := Decoder.maxDepth) (t := ⟨reader, slots, 0, allowed⟩)]
    rfl
  rw [Decoder.message]
  rcases h : Decoder.valueWithin Decoder.maxDepth ⟨reader, slots, 0, allowed⟩ with ⟨fault | v, d⟩
  · rw [bind_of_error h, bind_of_error (hvalue.trans h)]
  · rw [bind_of_ok h]
    refine (bind_of_ok (hvalue.trans h)).trans ?_
    cases v <;> rfl

end Reads

namespace Frame

/-- A payload decodes exactly to the messages that the grammar has for it within the nesting limit,
with the kinds of the objects that it announces. -/
theorem decodePayload_eq_ok_iff {payload : Bytes} {kinds : List LobKind} :
    decodePayload allowed payload = .ok (m, kinds) ↔
      m.height ≤ Decoder.maxDepth ∧ Format.payload allowed m 0 payload kinds := by
  unfold decodePayload
  dsimp only
  constructor
  · intro h
    split at h
    · cases h
    · next m' d hbody =>
      obtain ⟨actual, _, hversion, hrest⟩ := bind_eq_ok_iff.mp hbody
      obtain ⟨_, between, _, rfl, ⟨rfl, rfl⟩, rfl⟩ := (Reads.uint8 ..).mp hversion
      by_cases hactual : actual = version
      · rw [if_pos hactual, Reads.message_apply] at hrest
        obtain ⟨taken, rest, kinds', rfl, ⟨hheight, hf⟩, rfl⟩ := (Reads.messageWithin _ ..).mp hrest
        cases rest with
        | cons byte rest => cases h
        | nil =>
          have heq : (m', (#[] ++ #[] ++ kinds'.toArray).toList) = (m, kinds) := Except.ok.inj h
          simp only [Array.empty_append, Prod.mk.injEq] at heq
          obtain ⟨rfl, rfl⟩ := heq
          refine ⟨hheight, seq_exactly.mpr ⟨taken, by rw [hactual, List.append_nil], ?_⟩⟩
          rw [fields_singleton]
          exact hf
      · rw [if_neg hactual] at hrest
        cases hrest
  · rintro ⟨hheight, hf⟩
    obtain ⟨rest, rfl, hmessage⟩ := seq_exactly.mp hf
    rw [fields_singleton] at hmessage
    have hversion : (liftM Reader.uint8 : Decode UInt8)
        (Decoder.ofBytes ([version] ++ rest) allowed) =
          (.ok version, ⟨⟨rest, 0 + 1⟩, #[], 0, allowed⟩) :=
      (Reads.uint8 ..).mpr ⟨[version], rest, [], rfl, ⟨rfl, rfl⟩, rfl⟩
    have hread := (Reads.messageWithin Decoder.maxDepth rest (0 + 1) #[] 0 m _).mpr
      ⟨rest, [], kinds, (List.append_nil rest).symm, ⟨hheight, hmessage⟩, rfl⟩
    rw [bind_of_ok hversion, if_pos rfl, Reads.message_apply, hread]
    change Except.ok (m, (#[] ++ kinds.toArray).toList) = _
    rw [Array.empty_append]

theorem checkLength_eq_ok_iff {length max : Nat} :
    checkLength length max = .ok () ↔ 0 < length ∧ length ≤ max := by
  unfold checkLength
  split_ifs <;> simp <;> omega

/-- What an encoder makes of a message within its limit. -/
theorem encodePayload_ok {options : Options} (hlimit : options.maxSize < 2 ^ 32)
    (hpermitted : ∀ part ∈ m.parts, part.Permitted allowed) {payload : Bytes}
    {contents : List Bytes} (h : encodePayload options m = .ok (payload, contents)) :
    ∃ kinds, Format.payload allowed m.asSent 0 payload kinds ∧
      kinds.length = contents.length ∧ contents = m.contents ∧
      payload.length ≤ options.maxSize := by
  unfold encodePayload at h
  dsimp only at h
  split at h
  · cases h
  · next encoder hbody =>
    have hmessage := (Emits.compositional hlimit).hereditary.of_message m hpermitted
    obtain ⟨bytes, kinds, hf, hkinds, hfits, rfl⟩ :=
      (Emits.sequential.field (Emits.sequential.uint8 version) (Encode.Sequential.last hmessage))
        #[] #[] _ _ (Nat.zero_le _) hbody
    cases h
    simp only [Writer.bytes, Array.empty_append]
    exact ⟨kinds, hf, hkinds, trivial, by simpa using hfits⟩

theorem payload_of_prefix {max : Nat} {content : Bytes} (hpos : content ≠ [])
    (hmax : content.length ≤ max) (hlt : content.length < 2 ^ 32) (rest : Bytes) :
    ∃ pos, payload max (Reader.ofBytes (Bytes.ofNat 4 content.length ++ content ++ rest)) =
      (.ok content, ⟨rest, pos⟩) := by
  have hcheck := checkLength_eq_ok_iff.mpr ⟨List.length_pos_iff.mpr hpos, hmax⟩
  have hfields : fields [word 4 content.length, exactly content] 0
      (Bytes.ofNat 4 content.length ++ content) [] := by
    refine seq_exactly.mpr ⟨content, rfl, ?_⟩
    rw [fields_singleton]
    exact ⟨rfl, rfl⟩
  have hframe : Reads .empty _ _ := Reads.framePayload max
  have hread := (hframe _ 0 #[] 0 content _).mpr ⟨_, rest, [], rfl, ⟨hcheck, hlt, hfields⟩, rfl⟩
  rw [Decode.liftM_apply, Prod.mk.injEq, Decoder.mk.injEq] at hread
  exact ⟨_, Prod.ext hread.1 hread.2.1⟩

/-- A payload that the grammar has, with contents behind it that stay within the limit, gives what
it says with the contents bound. -/
theorem decode_of_payload {max : Nat} {payload : Bytes} {kinds : List LobKind}
    {contents : List Bytes} (hf : Format.payload allowed m 0 payload kinds)
    (hkinds : kinds.length = contents.length) (hheight : m.height ≤ Decoder.maxDepth)
    (hmax : payload.length ≤ max) (hlt : payload.length < 2 ^ 32)
    (htotal : (contents.map List.length).sum ≤ max) :
    decode allowed max
        (Bytes.ofNat 4 payload.length ++ payload ++ contents.flatMap Appendix.write) =
      .ok (m.bind contents) := by
  have hpos := (solid_byte version).fields _ 0 payload kinds hf
  obtain ⟨pos, hread⟩ := payload_of_prefix hpos hmax hlt (contents.flatMap Appendix.write)
  have hdecode := decodePayload_eq_ok_iff.mpr ⟨hheight, hf⟩
  have hcontents : Appendix.readAll max contents.length []
      ⟨0, ⟨contents.flatMap Appendix.write ++ [], pos⟩⟩ = (.ok ([].reverse ++ contents), _) :=
    Appendix.readAll_write fun _ => by omega
  rw [List.append_nil, List.reverse_nil, List.nil_append] at hcontents
  unfold decode
  rw [hread]
  dsimp only
  rw [hdecode]
  dsimp only
  rw [hkinds, hcontents]

/-- A frame whose names are permitted, whose nesting and whose contents stay within the limits gives
back what its body says, with the contents bound. -/
theorem decode_encode_of_permitted {options : Options} (hlimit : options.maxSize < 2 ^ 32)
    (hpermitted : ∀ part ∈ m.parts, part.Permitted allowed) (hheight : m.height ≤ Decoder.maxDepth)
    (htotal : (m.contents.map List.length).sum ≤ options.maxSize) {frame : Bytes}
    (hencode : encode options m = .ok frame) :
    decode allowed options.maxSize frame = .ok (m.asSent.bind m.contents) := by
  unfold encode at hencode
  split at hencode
  · cases hencode
  · next content contents hpayload =>
    cases hencode
    obtain ⟨kinds, hf, hkinds, rfl, hfits⟩ := encodePayload_ok hlimit hpermitted hpayload
    exact decode_of_payload hf hkinds (m.height_asSent ▸ hheight) hfits (by omega) htotal

/-- A frame gives back the message that was encoded, with its own content in each large object. -/
theorem decode_encode {tagsByCode : Bool} (hlimit : limit < 2 ^ 32)
    (hbound : ∀ lob, .lob lob ∈ m.parts → lob.content.isSome)
    (htotal : (m.contents.map List.length).sum ≤ limit) (hheight : m.height ≤ 64)
    (hnames : ∀ typeName fields, .named typeName fields ∈ m.parts →
      allowed.resolve typeName = .ok none)
    (hlengths : ∀ reference length, .reference reference ∈ m.parts →
      reference.length = some length → length.toNat < 2 ^ 63)
    (htimeouts : ∀ request timeout, .message (.request request) ∈ m.parts →
      request.queryTimeout = some timeout →
        ∃ n, 0 < n ∧ n < 2 ^ 64 ∧ timeout = Duration.milliseconds n)
    {frame : Bytes} (hencode : encode ⟨tagsByCode, limit⟩ m = .ok frame) :
    decode allowed limit frame = .ok m := by
  have hpermitted : ∀ part ∈ m.parts, part.Permitted allowed := by
    intro part hpart
    cases part with
    | named typeName fields => exact hnames typeName fields hpart
    | _ => trivial
  have hexact : ∀ part ∈ m.parts, part.Exact := by
    intro part hpart
    cases part with
    | lob lob => exact hbound lob hpart
    | reference reference =>
      obtain ⟨id, kind, _ | length⟩ := reference
      · rfl
      · exact sentLength_some (hlengths _ length hpart rfl)
    | message inner =>
      cases inner with
      | request request =>
        obtain ⟨executionId, sql, parameters, fetchSize, cursorType, rowLimit, _ | timeout⟩ :=
          request
        · rfl
        · obtain ⟨n, hpos, hlt, rfl⟩ := htimeouts _ timeout hpart rfl
          exact sentTimeout_some hpos hlt
      | _ => trivial
    | _ => trivial
  have h := decode_encode_of_permitted hlimit hpermitted hheight htotal hencode
  rwa [Message.bind_asSent hexact] at h

/-- A batch whose one row holds large objects, also inside other values. -/
def sampleBatch : Message :=
  .results ⟨1, 1, 1, [⟨"c", "T"⟩], [[.lob ⟨.blob, some [1, 2, 3]⟩,
    .list [.long 7, .named "a.B" [.lob ⟨.clob, some [104]⟩]], .reference ⟨"r", .xml, some 9⟩,
    .message (.request ⟨1, "", [], 1, .forwardOnly, 0, some (.milliseconds 5)⟩)]], none, [], none⟩

theorem decode_encode_sampleBatch : ∃ frame, encode ⟨false, 4096⟩ sampleBatch = .ok frame ∧
    decode (AllowList.empty.allow "a.B") 4096 frame = .ok sampleBatch := by
  have hok : (encode ⟨false, 4096⟩ sampleBatch).isOk = true := by decide +kernel
  cases hframe : encode ⟨false, 4096⟩ sampleBatch with
  | error fault =>
    rw [hframe] at hok
    cases hok
  | ok frame =>
    refine ⟨frame, rfl, decode_encode (by decide) ?_ (by decide) (by decide) ?_ ?_ ?_ hframe⟩
    · intro lob hmem
      simp [sampleBatch, Message.parts, Value.parts, partsOfRows, partsOfEach] at hmem
      rcases hmem with rfl | rfl <;> rfl
    · intro typeName fields hmem
      simp [sampleBatch, Message.parts, Value.parts, partsOfRows, partsOfEach] at hmem
      rw [hmem.1]
      decide
    · intro reference length hmem hlength
      simp [sampleBatch, Message.parts, Value.parts, partsOfRows, partsOfEach] at hmem
      rw [hmem] at hlength
      cases hlength
      decide
    · intro request timeout hmem htimeout
      simp [sampleBatch, Message.parts, Value.parts, partsOfRows, partsOfEach] at hmem
      rw [hmem] at htimeout
      cases htimeout
      exact ⟨5, by decide, by decide, rfl⟩

end Frame

end QueryClient

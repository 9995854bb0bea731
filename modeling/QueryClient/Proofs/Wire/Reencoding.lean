import QueryClient.Proofs.Wire.Filling
import QueryClient.Proofs.Wire.Respelling
import QueryClient.Proofs.Wire.RoundTrip

/-!
# What was received can be sent on

A frame may be written in many ways: tags by code or by name, contents cut anywhere, unknown lengths
as any negative number. Whatever has been decoded, however it was written, can be encoded again
under the same limit. The new frame is no longer than the one received, and means the same.
-/

namespace QueryClient.Frame

open Format Operation

variable {allowed : AllowList} {m : Message} {max : Nat} {frame : Bytes}

theorem prefix_of_payload {content : Bytes} {reader : Reader}
    (h : payload max (Reader.ofBytes frame) = (.ok content, reader)) :
    checkLength content.length max = .ok () ∧ content.length < 2 ^ 32 ∧
      frame = Bytes.ofNat 4 content.length ++ content ++ reader.rest := by
  have hread : (liftM (payload max) : Decode Bytes) ⟨Reader.ofBytes frame, #[], 0, .empty⟩ =
      (.ok content, ⟨reader, #[], 0, .empty⟩) := by
    rw [Decode.liftM_apply, h]
  obtain ⟨taken, rest, kinds, rfl, ⟨hcheck, hlt, hfields⟩, hafter⟩ :=
    (Reads.framePayload max ..).mp hread
  obtain ⟨_, rfl, hcontent⟩ := seq_exactly.mp hfields
  rw [fields_singleton] at hcontent
  obtain ⟨rfl, -⟩ := hcontent
  rw [Decoder.mk.injEq] at hafter
  exact ⟨hcheck, hlt, by rw [hafter.1]⟩

/-- What a frame that decodes consists of. -/
theorem payload_of_decode (h : decode allowed max frame = .ok m) :
    ∃ (body : Message) (payload : Bytes) (kinds : List LobKind) (contents : List Bytes),
      m = body.bind contents ∧ Format.payload allowed body 0 payload kinds ∧
      kinds.length = contents.length ∧ body.height ≤ Decoder.maxDepth ∧ payload.length ≤ max ∧
      payload.length < 2 ^ 32 ∧ (contents.map List.length).sum ≤ max ∧
      4 + payload.length + (contents.flatMap Appendix.write).length ≤ frame.length := by
  unfold decode at h
  split at h
  · cases h
  next content reader hpayload =>
  split at h
  · cases h
  next body kinds hbody =>
  split at h
  · cases h
  next contents used reader' hcontents =>
  split at h
  · cases h
    obtain ⟨hcheck, hlt, rfl⟩ := prefix_of_payload hpayload
    obtain ⟨-, hmax⟩ := checkLength_eq_ok_iff.mp hcheck
    obtain ⟨hheight, hf⟩ := decodePayload_eq_ok_iff.mp hbody
    obtain ⟨_, rfl, hcount, rfl, htotal, hwritten⟩ := Appendix.contents_of_readAll hcontents
    rw [Nat.zero_add] at htotal
    refine ⟨body, content, kinds, _, rfl, hf, hcount.symm, hheight, hmax, hlt,
      htotal (Nat.zero_le _), ?_⟩
    rw [List.length_append, List.length_append, Bytes.length_ofNat]
    omega
  · cases h

/-- A message is encoded under any limit that leaves room for its shortest spelling. -/
theorem encodePayload_of_spells {shortest : Bytes}
    (h : Spells (Encoder.message m) 0 shortest m.contents) (hfits : 1 + shortest.length ≤ max) :
    encodePayload ⟨true, max⟩ m = .ok (version :: shortest, m.contents) := by
  have hbody := ((Spells.uint8 version).seq h) max #[] #[] rfl (by simpa [Nat.add_comm] using hfits)
  unfold encodePayload
  dsimp only
  rw [Encoder.start, Writer.empty, hbody]
  simp [Writer.bytes]

/-- The frame of a spelling, with contents behind it. -/
def spelled (shortest : Bytes) (contents : List Bytes) : Bytes :=
  Bytes.ofNat 4 (version :: shortest).length ++ version :: shortest ++
    contents.flatMap Appendix.write

section Spelled

variable {shortest : Bytes}
  (hspells : Spells (Encoder.message m) 0 shortest m.contents)
  (hmax : 1 + shortest.length ≤ max)

theorem length_spelled (shortest : Bytes) (contents : List Bytes) :
    (spelled shortest contents).length =
      5 + shortest.length + (contents.flatMap Appendix.write).length := by
  rw [spelled, List.length_append, List.length_append, Bytes.length_ofNat, List.length_cons]
  omega

include hspells hmax

theorem encode_of_spells : encode ⟨true, max⟩ m = .ok (spelled shortest m.contents) := by
  unfold encode
  rw [encodePayload_of_spells hspells hmax]
  rfl

/-- The frame of a spelling is one of its message. -/
theorem decode_spelled (hgood : ∀ part ∈ m.parts, part.Exact ∧ part.Permitted allowed)
    (hheight : m.height ≤ Decoder.maxDepth) (hlt : 1 + shortest.length < 2 ^ 32)
    (htotal : (m.contents.map List.length).sum ≤ max) :
    decode allowed max (spelled shortest m.contents) = .ok m := by
  -- the limit may be past what a length can say, but the spelling is not
  obtain ⟨kinds, hf, hkinds, -, hlength⟩ := encodePayload_ok hlt
    (fun part hpart => (hgood part hpart).2) (encodePayload_of_spells hspells (Nat.le_refl _))
  have hdecode := decode_of_payload hf hkinds (m.height_asSent ▸ hheight) (hlength.trans hmax)
    (Nat.lt_of_le_of_lt hlength hlt) htotal
  rwa [Message.bind_asSent fun part hpart => (hgood part hpart).1] at hdecode

end Spelled

/-- Whatever decodes can be encoded again under the same limit, in a frame no longer than the one
that was decoded. The new frame gives the same message, and that message the new frame. -/
theorem decode_reencodes (h : decode allowed max frame = .ok m) :
    ∃ frame', encode ⟨true, max⟩ m = .ok frame' ∧ frame'.length ≤ frame.length ∧
      decode allowed max frame' = .ok m ∧
      (do encode ⟨true, max⟩ (← decode allowed max frame')) = .ok frame' := by
  obtain ⟨body, payload, kinds, contents, rfl, hf, hkinds, hheight, hmax, hlt, htotal, hlength⟩ :=
    payload_of_decode h
  obtain ⟨rest, rfl, hmessage⟩ := seq_exactly.mp hf
  rw [fields_singleton] at hmessage
  rw [List.singleton_append, List.length_cons] at hmax hlt hlength
  obtain ⟨sent, rfl, rfl, hgood⟩ :=
    Fills.hereditary.of_message body 0 rest kinds contents hmessage hkinds
  have hexact : ∀ part ∈ sent.parts, part.Exact := fun part hpart => (hgood part hpart).1
  rw [Message.bind_asSent hexact]
  rw [Message.height_asSent] at hheight
  obtain ⟨-, shortest, hshortest, hspells⟩ :=
    Respells.compositional.hereditary.of_message sent hexact 0 rest kinds hmessage
  have hencode : encode ⟨true, max⟩ sent = .ok (spelled shortest sent.contents) :=
    encode_of_spells hspells (by omega)
  have hdecode := decode_spelled hspells (by omega) hgood hheight (by omega) htotal
  refine ⟨spelled shortest sent.contents, hencode, ?_, hdecode, ?_⟩
  · rw [length_spelled]
    omega
  · rw [hdecode]
    exact hencode

/-- An answer with large objects, written at length: two tags by name, a content in pieces of one
byte, an unknown length other than `-1`, and no timeout. -/
def wordyFrame : Bytes :=
  let request := [Kind.request.code] ++ Bytes.ofNat 8 1 ++ Bytes.ofNat 4 0 ++ Bytes.ofNat 4 0 ++
    Bytes.ofNat 4 1 ++ [CursorType.forwardOnly.code] ++ Bytes.ofNat 4 0 ++ Bytes.ofNat 8 0
  let reference := [Kind.lobReference.code] ++ Bytes.ofNat 4 1 ++ Utf8.encode "r" ++
    [LobKind.blob.code] ++ Bytes.ofNat 8 (2 ^ 64 - 5)
  let items := [Kind.byName] ++ Bytes.ofNat 2 4 ++ Utf8.encode Kind.list.name ++ Bytes.ofNat 4 3 ++
    [Kind.streamReference.code, LobKind.clob.code] ++ Bytes.ofNat 2 0 ++ reference ++ request
  let payload := [version, Kind.byName] ++ Bytes.ofNat 2 12 ++ Utf8.encode Kind.reply.name ++
    Bytes.ofNat 8 7 ++ [0] ++ items
  Bytes.ofNat 4 payload.length ++ payload ++ [0, 1, 104, 0, 1, 105, 0, 0]

theorem decode_reencodes_wordyFrame : ∃ m frame', decode .empty 4096 wordyFrame = .ok m ∧
    encode ⟨true, 4096⟩ m = .ok frame' ∧ frame'.length ≤ wordyFrame.length ∧
    decode .empty 4096 frame' = .ok m := by
  have hok : (decode .empty 4096 wordyFrame).isOk = true := by decide +kernel
  cases hframe : decode .empty 4096 wordyFrame with
  | error fault =>
    rw [hframe] at hok
    cases hok
  | ok m =>
    obtain ⟨frame', hencode, hlength, hdecode, -⟩ := decode_reencodes hframe
    exact ⟨m, frame', rfl, hencode, hlength, hdecode⟩

end QueryClient.Frame

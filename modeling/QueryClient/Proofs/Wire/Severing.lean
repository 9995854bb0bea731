import QueryClient.Proofs.Wire.Inflow

/-!
# Frames cut short and frames run on

What is left of a frame when its end is cut off breaks off, wherever the cut is: in the length, in
the payload, in the length or the bytes of a piece of content, or before the empty piece that ends a
content. Nothing is wrong with it before that, so that it always fails for want of bytes; and what
is added to a frame is always found to be too much (`cuts_and_additions_detected`).
-/

namespace QueryClient

/-- What is cut off the end of two things leaves a part of the first, or the whole first and a part
of the second. -/
theorem Bytes.cut_append {front lost first second : Bytes} (h : front ++ lost = first ++ second) :
    (∃ cut, first = front ++ cut ∧ cut ≠ []) ∨
      ∃ later, front = first ++ later ∧ later ++ lost = second := by
  rcases List.append_eq_append_iff.mp h with ⟨cut, hfirst, hcut⟩ | ⟨later, hfront, hsecond⟩
  · by_cases hnil : cut = []
    · subst hnil
      exact .inr ⟨[], by simpa using hfirst.symm, hcut⟩
    · exact .inl ⟨cut, hfirst, hnil⟩
  · exact .inr ⟨later, hfront, hsecond.symm⟩

theorem Bytes.length_lt_of_cut {front cut whole : Bytes} (h : whole = front ++ cut)
    (hcut : cut ≠ []) : front.length < whole.length := by
  have hpos := List.length_pos_iff.mpr hcut
  rw [h, List.length_append]
  omega

namespace Appendix

variable {max used : Nat} {front lost : Bytes}

/-- A content that loses its end is cut short. -/
theorem cutShort_of_cut {cutting : List Bytes} (hcutting : ∀ piece ∈ cutting, IsPiece piece)
    (hmax : used + cutting.flatten.length ≤ max)
    (h : front ++ lost = cutting.flatMap writePiece ++ writePiece []) (hlost : lost ≠ []) :
    CutShort max used front := by
  induction cutting generalizing used front with
  | nil => exact .length (Bytes.length_lt_of_cut h.symm hlost)
  | cons piece cutting ih =>
    rw [List.forall_mem_cons] at hcutting
    rw [List.flatten_cons, List.length_append] at hmax
    rw [List.flatMap_cons, List.append_assoc] at h
    rcases Bytes.cut_append h with ⟨cut, hpiece, hcut⟩ | ⟨later, rfl, hlater⟩
    · -- the cut is in this piece: in its length, or behind that
      rcases Bytes.cut_append hpiece.symm with ⟨_, hword, hcut'⟩ | ⟨later, rfl, hlater⟩
      · have hshort := Bytes.length_lt_of_cut hword hcut'
        rw [Bytes.length_ofNat] at hshort
        exact .length hshort
      · have hpos := List.length_pos_iff.mpr hcutting.1.1
        have hlt : piece.length < 2 ^ 16 := Nat.lt_succ_of_le hcutting.1.2
        exact .piece hpos hlt (by omega) (Bytes.length_lt_of_cut hlater.symm hcut)
    · exact .later hcutting.1 (by omega) (ih hcutting.2 (by omega) hlater)

/-- Contents that lose their end break off. -/
theorem breaksOff_of_cut {taken : Bytes} {contents : List Bytes} (hholds : Holds taken contents)
    (hmax : used + (contents.map List.length).sum ≤ max) (h : front ++ lost = taken)
    (hlost : lost ≠ []) : BreaksOff max contents.length used front := by
  induction hholds generalizing used front with
  | nil => exact absurd (List.append_eq_nil_iff.mp h).2 hlost
  | cons hcutting _ ih =>
    rw [List.map_cons, List.sum_cons] at hmax
    rcases Bytes.cut_append h with ⟨cut, hcontent, hcut⟩ | ⟨later, rfl, hlater⟩
    · exact .here (cutShort_of_cut hcutting (by omega) hcontent.symm hcut)
    · exact .later hcutting (by omega) (ih (by omega) hlater)

end Appendix

namespace Frame

open Operation

variable {allowed : AllowList} {max : Nat} {frame front lost : Bytes} {m : Message}

/-- A frame that loses its end breaks off. -/
theorem breaksOff_of_cut (h : decode allowed max (front ++ lost) = .ok m) (hlost : lost ≠ []) :
    BreaksOff allowed max front := by
  obtain ⟨content, body, kinds, taken, contents, hbytes, hcheck, hlt, hbody, hholds, hcount, htotal,
    -⟩ := first_eq_ok_iff.mp (decode_eq_ok_iff_first.mp h)
  rw [List.append_nil] at hbytes
  rcases Bytes.cut_append hbytes with ⟨cut, hpayload, hcut⟩ | ⟨later, rfl, hlater⟩
  · rcases Bytes.cut_append hpayload.symm with ⟨_, hword, hcut'⟩ | ⟨later, rfl, hlater⟩
    · have hshort := Bytes.length_lt_of_cut hword hcut'
      rw [Bytes.length_ofNat] at hshort
      exact .length hshort
    · exact .payload hlt hcheck (Bytes.length_lt_of_cut hlater.symm hcut)
  · refine .contents hlt hcheck hbody ?_
    rw [← hcount]
    exact Appendix.breaksOff_of_cut hholds (by omega) hlater hlost

theorem decode_of_breaksOff (h : BreaksOff allowed max front) : ∃ needed available,
    decode allowed max front = .error (.bufferUnderflow needed available) := by
  obtain ⟨needed, available, hfirst⟩ := first_of_breaksOff h
  exact ⟨needed, available, by rw [decode_eq_first, hfirst]⟩

theorem decode_append (h : decode allowed max frame = .ok m) {extra : Bytes} (hextra : extra ≠ []) :
    decode allowed max (frame ++ extra) = .error (.protocol (.trailingStreams extra.length)) := by
  have hfirst : first allowed max (frame ++ extra) = .ok (m, extra) :=
    first_eq_ok_iff_decode.mpr ⟨frame, rfl, h⟩
  obtain ⟨byte, rest, rfl⟩ := List.exists_cons_of_ne_nil hextra
  rw [decode_eq_first, hfirst]

/-- **Cuts and additions.** Whatever is cut off the end of an accepted frame, decoding the rest
fails for want of bytes, and a flow that ends there is lost, however it is cut into pieces. Whatever
is added to it is found to be too much. So no accepted frame begins another. -/
theorem cuts_and_additions_detected (h : decode allowed max frame = .ok m) :
    (∀ front lost, frame = front ++ lost → lost ≠ [] →
      (∃ needed available,
        decode allowed max front = .error (.bufferUnderflow needed available)) ∧
      ∀ pieces : List Bytes, pieces.flatten = front →
        (Inflow.message allowed max ⟨pieces, .closed⟩).1 =
          .error (.fault (.connectionLost "server closed the connection"))) ∧
    (∀ extra, extra ≠ [] → decode allowed max (frame ++ extra) =
      .error (.protocol (.trailingStreams extra.length))) ∧
    ∀ frame' m', decode allowed max frame' = .ok m' → frame <+: frame' → frame = frame' := by
  refine ⟨?_, fun extra => decode_append h, ?_⟩
  · rintro front lost rfl hlost
    have hbreaks := breaksOff_of_cut h hlost
    refine ⟨decode_of_breaksOff hbreaks, ?_⟩
    rintro pieces rfl
    exact Inflow.message_of_breaksOff rfl hbreaks
  · rintro frame' m' h' ⟨extra, rfl⟩
    by_cases hextra : extra = []
    · rw [hextra, List.append_nil]
    · rw [decode_append h hextra] at h'
      cases h'

/-- A frame with a content behind it, cut anywhere, and with a byte too many. -/
theorem cuts_and_additions_detected_wordyFrame : ∃ m, decode .empty 4096 wordyFrame = .ok m ∧
    (∀ n < wordyFrame.length, ∃ needed available, decode .empty 4096 (wordyFrame.take n) =
      .error (.bufferUnderflow needed available)) ∧
    decode .empty 4096 (wordyFrame ++ [0]) = .error (.protocol (.trailingStreams 1)) := by
  have hkind : (decode .empty 4096 wordyFrame).toOption.map Message.kind = some .reply := by
    decide +kernel
  obtain ⟨m, hframe, -⟩ := exists_of_toOption_map hkind
  obtain ⟨hcuts, hadditions, -⟩ := cuts_and_additions_detected hframe
  refine ⟨m, hframe, fun n hn => ?_, hadditions [0] (List.cons_ne_nil 0 [])⟩
  have hlost : wordyFrame.drop n ≠ [] := by
    rw [ne_eq, List.drop_eq_nil_iff]
    omega
  exact (hcuts _ _ (List.take_append_drop n wordyFrame).symm hlost).1

end Frame

end QueryClient

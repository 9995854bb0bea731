import QueryClient.Proofs.Wire.Appendix

/-!
# Contents do not depend on how they were cut

Whoever sends some content may cut it anywhere. Whether the content is read back depends on the
content and on what the frame has had so far: it is, unless it passes the limit, and then reading
stops behind the length of the first piece that does (`Crosses`). An empty content passes no limit,
not even one that has been passed before.
-/

namespace QueryClient.Appendix

variable {max used pos : Nat} {cutting before earlier : List Bytes} {content piece rest : Bytes}

/-! ## The first piece that passes the limit -/

/-- The piece behind some others is the first one that passes the limit. -/
structure Crosses (max used : Nat) (before : List Bytes) (piece : Bytes) : Prop where
  within : before ≠ [] → used + before.flatten.length ≤ max
  past : max < used + before.flatten.length + piece.length

theorem exists_crosses (hmax : max < used + cutting.flatten.length) (hcutting : cutting ≠ []) :
    ∃ before piece after, cutting = before ++ piece :: after ∧ Crosses max used before piece := by
  induction cutting generalizing used with
  | nil => exact absurd rfl hcutting
  | cons first cutting ih =>
    rw [List.flatten_cons, List.length_append] at hmax
    -- Either the first piece is past the limit, or one of those behind it is.
    by_cases hfirst : max < used + first.length
    · exact ⟨[], first, cutting, rfl, fun hnil => absurd rfl hnil, hfirst⟩
    · have hlater : cutting ≠ [] := by
        rintro rfl
        rw [List.flatten_nil, List.length_nil] at hmax
        omega
      obtain ⟨before, piece, after, rfl, hwithin, hpast⟩ :=
        @ih (used + first.length) (by omega) hlater
      refine ⟨first :: before, piece, after, rfl, fun _ => ?_, ?_⟩
      · rw [List.flatten_cons, List.length_append]
        by_cases hnil : before = []
        · rw [hnil, List.flatten_nil, List.length_nil]
          omega
        · have hle := hwithin hnil
          omega
      · rw [List.flatten_cons, List.length_append]
        omega

/-- Reading stops before the data of the first piece that passes the limit. -/
theorem readPieces_crosses (hbefore : ∀ piece ∈ before, IsPiece piece) (hpiece : IsPiece piece)
    (h : Crosses max used before piece) :
    readPieces max used earlier pos (before.flatMap writePiece ++ writePiece piece ++ rest) =
      (.error (.frameTooLarge (used + before.flatten.length + piece.length) max),
        ⟨used + before.flatten.length + piece.length,
          ⟨piece ++ rest, pos + (before.flatMap writePiece).length + 2⟩⟩) := by
  rw [List.append_assoc, readPieces_append hbefore h.within, readPieces_writePiece hpiece,
    if_pos h.past]

theorem Cuts.read_crosses (h : Cuts cutting content) (hcontent : content ≠ [])
    (hmax : max < used + content.length) :
    ∃ before piece after, cutting = before ++ piece :: after ∧ Crosses max used before piece ∧
      read max ⟨used, ⟨stream cutting ++ rest, pos⟩⟩ =
        (.error (.frameTooLarge (used + before.flatten.length + piece.length) max),
          ⟨used + before.flatten.length + piece.length,
            ⟨piece ++ stream after ++ rest, pos + (before.flatMap writePiece).length + 2⟩⟩) := by
  have hcutting : cutting ≠ [] := by
    rintro rfl
    exact hcontent h.flatten.symm
  obtain ⟨before, piece, after, rfl, hcrosses⟩ :=
    exists_crosses (h.flatten.symm ▸ hmax) hcutting
  have hpieces := List.forall_mem_append.1 h.pieces
  have hbytes : stream (before ++ piece :: after) ++ rest =
      before.flatMap writePiece ++ writePiece piece ++ (stream after ++ rest) := by
    simp only [stream, List.flatMap_append, List.flatMap_cons, List.append_assoc]
  refine ⟨before, piece, after, rfl, hcrosses, ?_⟩
  rw [read, hbytes, readPieces_crosses hpieces.1 (hpieces.2 piece List.mem_cons_self) hcrosses,
    ← List.append_assoc]

/-- **Contents do not depend on how they were cut.** From any cutting the content is read back, and
what follows is left alone, if it stays within the limit or is empty; otherwise reading stops before
the data of the first piece that passes the limit. What is written is the cutting with the fewest
pieces, and contents written one behind another are read back in their order. -/
theorem streams_read_back :
    (∀ max used pos content cutting rest, Cuts cutting content →
      ((content ≠ [] → used + content.length ≤ max) →
        read max ⟨used, ⟨stream cutting ++ rest, pos⟩⟩ =
          (.ok content, ⟨used + content.length, ⟨rest, pos + (stream cutting).length⟩⟩)) ∧
      (content ≠ [] → max < used + content.length → ∃ before piece after,
        cutting = before ++ piece :: after ∧ Crosses max used before piece ∧
        read max ⟨used, ⟨stream cutting ++ rest, pos⟩⟩ =
          (.error (.frameTooLarge (used + before.flatten.length + piece.length) max),
            ⟨used + before.flatten.length + piece.length,
              ⟨piece ++ stream after ++ rest, pos + (before.flatMap writePiece).length + 2⟩⟩))) ∧
    (∀ content, write content = stream (pieces content) ∧ Cuts (pieces content) content ∧
      ∀ cutting, Cuts cutting content → (pieces content).length ≤ cutting.length) ∧
    ∀ max used pos contents rest,
      ((contents.map List.length).sum ≠ 0 → used + (contents.map List.length).sum ≤ max) →
      readAll max contents.length [] ⟨used, ⟨contents.flatMap write ++ rest, pos⟩⟩ =
        (.ok contents, ⟨used + (contents.map List.length).sum,
          ⟨rest, pos + (contents.flatMap write).length⟩⟩) := by
  refine ⟨?_, ?_, ?_⟩
  · intro max used pos content cutting rest h
    exact ⟨h.read_stream, h.read_crosses⟩
  · intro content
    refine ⟨rfl, cuts_pieces content, ?_⟩
    rintro cutting ⟨hpieces, rfl⟩
    exact length_pieces_flatten_le hpieces
  · intro max used pos contents rest hmax
    exact readAll_write hmax

theorem streams_read_back_twoPieces :
    Cuts [[1], [2, 3]] [1, 2, 3] ∧ ([1, 2, 3] ≠ ([] : Bytes) → 1 + [1, 2, 3].length ≤ 4) ∧
    read 4 ⟨1, ⟨stream [[1], [2, 3]] ++ [9], 0⟩⟩ = (.ok [1, 2, 3], ⟨4, ⟨[9], 9⟩⟩) ∧
    ([1, 2, 3] ≠ ([] : Bytes) ∧ 3 < 1 + [1, 2, 3].length) ∧
    (∃ before piece after, [[1], [2, 3]] = before ++ piece :: after ∧ Crosses 3 1 before piece ∧
      read 3 ⟨1, ⟨stream [[1], [2, 3]] ++ [9], 0⟩⟩ =
        (.error (.frameTooLarge (1 + before.flatten.length + piece.length) 3),
          ⟨1 + before.flatten.length + piece.length,
            ⟨piece ++ stream after ++ [9], 0 + (before.flatMap writePiece).length + 2⟩⟩)) ∧
    readAll 4 2 [] ⟨1, ⟨[[1, 2], [3]].flatMap write ++ [9], 0⟩⟩ =
      (.ok [[1, 2], [3]], ⟨4, ⟨[9], 0 + ([[1, 2], [3]].flatMap write).length⟩⟩) := by
  have hcuts : Cuts [[1], [2, 3]] [1, 2, 3] := ⟨by simp [IsPiece, maxPiece], rfl⟩
  have hwithin : [1, 2, 3] ≠ ([] : Bytes) → 1 + [1, 2, 3].length ≤ 4 := by decide
  have hpast : [1, 2, 3] ≠ ([] : Bytes) ∧ 3 < 1 + [1, 2, 3].length := by decide
  obtain ⟨hread, -, hall⟩ := streams_read_back
  refine ⟨hcuts, hwithin, (hread 4 1 0 _ _ [9] hcuts).1 hwithin, hpast,
    (hread 3 1 0 _ _ [9] hcuts).2 hpast.1 hpast.2, hall 4 1 0 [[1, 2], [3]] [9] (by decide)⟩

/-- Nothing is read where the limit has been passed before, and reading does not fail. -/
theorem empty_content_passes : 3 < 5 + ([] : Bytes).length ∧
    read 3 ⟨5, Reader.ofBytes (write [])⟩ = (.ok [], ⟨5, ⟨[], 2⟩⟩) := by
  refine ⟨by decide, ?_⟩
  rw [write, pieces, List.flatMap_nil, List.nil_append, ← List.append_nil (writePiece [])]
  exact readPieces_end

end QueryClient.Appendix

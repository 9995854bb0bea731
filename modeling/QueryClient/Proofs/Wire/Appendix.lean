import QueryClient.Proofs.Bytes
import QueryClient.Wire.Appendix

/-!
# Contents read back

Contents are read back from any cutting into pieces, as long as the contents of the frame stay
within the limit, and reading stops right behind the last of them. Whatever is read was such a
cutting, and to write the contents again takes no more bytes than were read.
-/

namespace QueryClient.Appendix

/-- A piece that may stand in a cutting: not empty, and of a length that fits into two bytes. -/
def IsPiece (piece : Bytes) : Prop :=
  piece ≠ [] ∧ piece.length ≤ maxPiece

theorem writePiece_eq (piece : Bytes) :
    writePiece piece =
      UInt8.ofNat (piece.length / 256) :: UInt8.ofNat piece.length :: piece := by
  rw [writePiece, Bytes.ofNat_two]
  rfl

/-- Two bytes and as many bytes as they say are a piece as it is written. -/
theorem writePiece_of_length {high low : UInt8} {piece : Bytes}
    (h : piece.length = high.toNat * 256 + low.toNat) :
    writePiece piece = high :: low :: piece := by
  have hlow := low.toNat_lt
  have hfirst : UInt8.ofNat (piece.length / 256) = high := by
    rw [← UInt8.toNat_inj, UInt8.toNat_ofNat', h]
    have hhigh := high.toNat_lt
    omega
  have hsecond : UInt8.ofNat piece.length = low := by
    rw [← UInt8.toNat_inj, UInt8.toNat_ofNat', h]
    omega
  rw [writePiece_eq, hfirst, hsecond]

theorem pieces_flatten (content : Bytes) : (pieces content).flatten = content := by
  fun_induction pieces content with
  | case1 => rfl
  | case2 byte rest ih => rw [List.flatten_cons, ih, List.take_append_drop]

theorem isPiece_of_mem_pieces {content piece : Bytes} (h : piece ∈ pieces content) :
    IsPiece piece := by
  fun_induction pieces content with
  | case1 => cases h
  | case2 byte rest ih =>
    rcases List.mem_cons.mp h with rfl | h
    · refine ⟨?_, List.length_take_le _ _⟩
      rw [maxPiece, List.take_succ_cons]
      exact List.cons_ne_nil _ _
    · exact ih h

/-- Some content cut into pieces. -/
structure Cuts (cutting : List Bytes) (content : Bytes) : Prop where
  pieces : ∀ piece ∈ cutting, IsPiece piece
  flatten : cutting.flatten = content

/-- Pieces as they follow the body. -/
def stream (cutting : List Bytes) : Bytes :=
  cutting.flatMap writePiece ++ writePiece []

theorem cuts_pieces (content : Bytes) : Cuts (pieces content) content where
  pieces _ := isPiece_of_mem_pieces
  flatten := pieces_flatten content

theorem Cuts.eq_nil {cutting : List Bytes} (h : Cuts cutting []) : cutting = [] := by
  cases cutting with
  | nil => rfl
  | cons piece cutting =>
    have hempty : piece ++ cutting.flatten = [] := h.flatten
    exact absurd (List.append_eq_nil_iff.mp hempty).1 (h.pieces piece List.mem_cons_self).1

section Reading

variable {max used pos : Nat} {before : List Bytes} {rest : Bytes}

theorem readPieces_end :
    readPieces max used before pos (writePiece [] ++ rest) =
      (.ok before.reverse.flatten, ⟨used, ⟨rest, pos + 2⟩⟩) := by
  rw [writePiece_eq, List.cons_append, List.cons_append, readPieces]
  exact if_pos rfl

/-- A piece is taken whole, unless it passes the limit: then its length alone is taken. -/
theorem readPieces_writePiece {piece : Bytes} (hpiece : IsPiece piece) :
    readPieces max used before pos (writePiece piece ++ rest) =
      if max < used + piece.length then
        (.error (.frameTooLarge (used + piece.length) max),
          ⟨used + piece.length, ⟨piece ++ rest, pos + 2⟩⟩)
      else
        readPieces max (used + piece.length) (piece :: before) (pos + 2 + piece.length) rest := by
  have hlt : piece.length ≤ 65535 := hpiece.2
  have hpos := List.length_pos_iff.mpr hpiece.1
  have hlength : (UInt8.ofNat (piece.length / 256)).toNat * 256 + (UInt8.ofNat piece.length).toNat =
      piece.length := by
    rw [UInt8.toNat_ofNat', UInt8.toNat_ofNat']
    omega
  rw [writePiece_eq, List.cons_append, List.cons_append, readPieces]
  simp only [hlength]
  rw [if_neg (by omega), checkTotal]
  by_cases hmax : max < used + piece.length
  · rw [if_pos hmax, if_pos hmax]
  · rw [if_neg hmax, if_neg hmax]
    dsimp only
    rw [Bytes.holds_eq_decide, if_pos (by simp), List.take_left, List.drop_left]

theorem readPieces_piece {piece : Bytes} (hpiece : IsPiece piece)
    (hmax : used + piece.length ≤ max) :
    readPieces max used before pos (writePiece piece ++ rest) =
      readPieces max (used + piece.length) (piece :: before) (pos + 2 + piece.length) rest := by
  rw [readPieces_writePiece hpiece, if_neg (by omega)]

/-- Pieces within the limit are read one after another. -/
theorem readPieces_append {cutting : List Bytes} (h : ∀ piece ∈ cutting, IsPiece piece)
    (hmax : cutting ≠ [] → used + cutting.flatten.length ≤ max) :
    readPieces max used before pos (cutting.flatMap writePiece ++ rest) =
      readPieces max (used + cutting.flatten.length) (cutting.reverse ++ before)
        (pos + (cutting.flatMap writePiece).length) rest := by
  induction cutting generalizing used pos before with
  | nil => rfl
  | cons piece cutting ih =>
    rw [List.forall_mem_cons] at h
    have hwhole := hmax (List.cons_ne_nil _ _)
    rw [List.flatten_cons, List.length_append] at hwhole
    have hused : used + piece.length + cutting.flatten.length =
        used + (piece :: cutting).flatten.length := by
      rw [List.flatten_cons, List.length_append, Nat.add_assoc]
    have hpos : pos + 2 + piece.length + (cutting.flatMap writePiece).length =
        pos + (writePiece piece ++ cutting.flatMap writePiece).length := by
      rw [writePiece_eq piece]
      simp only [List.length_append, List.length_cons]
      omega
    rw [List.flatMap_cons, List.append_assoc, readPieces_piece h.1 (by omega),
      ih h.2 fun _ => by omega, hused, hpos, List.reverse_cons, List.append_assoc]
    rfl

/-- Content is read back from any cutting of it, and what follows is left alone. -/
theorem readPieces_cutting {cutting : List Bytes} (h : ∀ piece ∈ cutting, IsPiece piece)
    (hmax : cutting ≠ [] → used + cutting.flatten.length ≤ max) :
    readPieces max used before pos (cutting.flatMap writePiece ++ writePiece [] ++ rest) =
      (.ok (before.reverse.flatten ++ cutting.flatten),
        ⟨used + cutting.flatten.length,
          ⟨rest, pos + (cutting.flatMap writePiece ++ writePiece []).length⟩⟩) := by
  rw [List.append_assoc, readPieces_append h hmax, readPieces_end, List.reverse_append,
    List.reverse_reverse, List.flatten_append, List.length_append, Nat.add_assoc]
  rfl

/-- The limit is passed by content only, and not by one that is empty. -/
theorem Cuts.read_stream {cutting : List Bytes} {content : Bytes} (h : Cuts cutting content)
    (hmax : content ≠ [] → used + content.length ≤ max) :
    read max ⟨used, ⟨stream cutting ++ rest, pos⟩⟩ =
      (.ok content, ⟨used + content.length, ⟨rest, pos + (stream cutting).length⟩⟩) := by
  have hwithin : cutting ≠ [] → used + cutting.flatten.length ≤ max := by
    intro hcutting
    rw [h.flatten]
    apply hmax
    rintro rfl
    exact hcutting h.eq_nil
  rw [read, stream, readPieces_cutting h.pieces hwithin, h.flatten]
  rfl

/-- Contents written one behind another are read back in their order. -/
theorem readAll_write {contents : List Bytes}
    (hmax : (contents.map List.length).sum ≠ 0 → used + (contents.map List.length).sum ≤ max) :
    readAll max contents.length before ⟨used, ⟨contents.flatMap write ++ rest, pos⟩⟩ =
      (.ok (before.reverse ++ contents), ⟨used + (contents.map List.length).sum,
        ⟨rest, pos + (contents.flatMap write).length⟩⟩) := by
  induction contents generalizing used pos before with
  | nil =>
    rw [List.append_nil]
    rfl
  | cons content contents ih =>
    rw [List.map_cons, List.sum_cons] at hmax
    have hcontent : content ≠ [] → used + content.length ≤ max := by
      intro hne
      have hpos := List.length_pos_iff.mpr hne
      have hle := hmax (by omega)
      omega
    have hread : read max ⟨used, ⟨write content ++ (contents.flatMap write ++ rest), pos⟩⟩ = _ :=
      (cuts_pieces content).read_stream hcontent
    rw [List.length_cons, readAll, List.flatMap_cons, List.append_assoc, hread]
    dsimp only
    rw [ih fun hne => by have := hmax (by omega); omega, List.reverse_cons, List.append_assoc,
      List.singleton_append, List.map_cons, List.sum_cons, List.length_append, ← Nat.add_assoc,
      ← Nat.add_assoc]
    rfl

end Reading

/-! ## Whatever is read was a cutting -/

section Inverse

variable {max used used' pos pos' : Nat} {before : List Bytes} {bytes rest content : Bytes}

theorem length_flatMap_writePiece (cutting : List Bytes) :
    (cutting.flatMap writePiece).length = 2 * cutting.length + cutting.flatten.length := by
  induction cutting with
  | nil => rfl
  | cons piece cutting ih =>
    rw [List.flatMap_cons, List.flatten_cons, List.length_append, List.length_append, ih,
      writePiece_eq, List.length_cons, List.length_cons, List.length_cons]
    omega

/-- Only the last piece may be shorter than the others. -/
theorem length_pieces_lt (content : Bytes) :
    (pieces content).length * maxPiece < content.length + maxPiece := by
  fun_induction pieces content with
  | case1 => simp [maxPiece]
  | case2 byte rest ih =>
    rw [List.length_drop] at ih
    rw [List.length_cons, Nat.succ_mul, Nat.add_lt_add_iff_right]
    have hpos : 0 < (byte :: rest).length := Nat.succ_pos _
    generalize (byte :: rest).length = length at *
    generalize (pieces ((byte :: rest).drop maxPiece)).length = further at *
    unfold maxPiece at *
    omega

theorem length_flatten_le {cutting : List Bytes} (h : ∀ piece ∈ cutting, IsPiece piece) :
    cutting.flatten.length ≤ cutting.length * maxPiece := by
  induction cutting with
  | nil => exact Nat.zero_le _
  | cons piece cutting ih =>
    rw [List.forall_mem_cons] at h
    have hpiece := h.1.2
    have hrest := ih h.2
    rw [List.flatten_cons, List.length_append, List.length_cons, Nat.succ_mul]
    omega

/-- No cutting of some content has fewer pieces than the one that is written. -/
theorem length_pieces_flatten_le {cutting : List Bytes} (h : ∀ piece ∈ cutting, IsPiece piece) :
    (pieces cutting.flatten).length ≤ cutting.length := by
  have hlt := length_pieces_lt cutting.flatten
  have hle := length_flatten_le h
  unfold maxPiece at hlt hle
  omega

/-- No cutting of some content is shorter than the one that is written. -/
theorem length_write_flatten_le {cutting : List Bytes} (h : ∀ piece ∈ cutting, IsPiece piece) :
    (write cutting.flatten).length ≤ (cutting.flatMap writePiece ++ writePiece []).length := by
  have hfewest := length_pieces_flatten_le h
  rw [write, List.length_append, List.length_append, length_flatMap_writePiece,
    length_flatMap_writePiece, pieces_flatten]
  omega

theorem checkTotal_eq_ok_iff {total : Nat} : checkTotal total max = .ok () ↔ total ≤ max := by
  unfold checkTotal
  split <;> simp <;> omega

theorem cutting_of_readPieces
    (h : readPieces max used before pos bytes = (.ok content, ⟨used', ⟨rest, pos'⟩⟩)) :
    ∃ cutting : List Bytes, (∀ piece ∈ cutting, IsPiece piece) ∧
      bytes = cutting.flatMap writePiece ++ writePiece [] ++ rest ∧
      content = before.reverse.flatten ++ cutting.flatten ∧
      used' = used + cutting.flatten.length ∧ (used ≤ max → used' ≤ max) := by
  fun_induction readPieces max used before pos bytes with
  | case1 used before pos high low tail length hzero =>
    cases h
    refine ⟨[], nofun, ?_, by simp, rfl, id⟩
    rw [List.flatMap_nil, List.nil_append, @writePiece_of_length high low [] hzero.symm]
    rfl
  | case2 => cases h
  | case3 used before pos high low tail length hzero hcheck hholds ih =>
    obtain ⟨cutting, hcutting, hbytes, rfl, rfl, hmax⟩ := ih h
    have htaken : (tail.take length).length = length :=
      List.length_take_of_le (by simpa [Bytes.holds_eq_decide] using hholds)
    have hpiece : IsPiece (tail.take length) := by
      have hhigh := high.toNat_lt
      have hlow := low.toNat_lt
      refine ⟨List.length_pos_iff.mp (by omega), ?_⟩
      unfold maxPiece
      omega
    refine ⟨tail.take length :: cutting, List.forall_mem_cons.mpr ⟨hpiece, hcutting⟩, ?_, by simp,
      ?_, fun _ => hmax (checkTotal_eq_ok_iff.mp hcheck)⟩
    · calc high :: low :: tail
          = (high :: low :: tail.take length) ++ tail.drop length := by
            rw [List.cons_append, List.cons_append, List.take_append_drop]
        _ = writePiece (tail.take length) ++ tail.drop length := by
            rw [writePiece_of_length htaken]
        _ = _ := by
            rw [hbytes, List.flatMap_cons, List.append_assoc (writePiece _),
              List.append_assoc (writePiece _)]
    · rw [List.flatten_cons, List.length_append, htaken, Nat.add_assoc]
  | case4 => cases h
  | case5 => cases h

/-- Contents that were read stay within the limit, and take no less when they are not written. -/
theorem contents_of_readAll {n : Nat} {earlier contents : List Bytes}
    (h : readAll max n earlier ⟨used, ⟨bytes, pos⟩⟩ = (.ok contents, ⟨used', ⟨rest, pos'⟩⟩)) :
    ∃ later : List Bytes, contents = earlier.reverse ++ later ∧ later.length = n ∧
      used' = used + (later.map List.length).sum ∧ (used ≤ max → used' ≤ max) ∧
      (later.flatMap write).length + rest.length ≤ bytes.length := by
  induction n generalizing used pos earlier bytes with
  | zero =>
    cases h
    exact ⟨[], by simp, rfl, rfl, id, by simp⟩
  | succ n ih =>
    rw [readAll] at h
    split at h
    · cases h
    · next content p hread =>
      obtain ⟨_, ⟨tail, _⟩⟩ := p
      obtain ⟨cutting, hcutting, rfl, rfl, rfl, hmax⟩ := cutting_of_readPieces hread
      obtain ⟨later, rfl, rfl, rfl, hmax', hlength⟩ := ih h
      have hwritten := length_write_flatten_le hcutting
      refine ⟨cutting.flatten :: later, by simp, rfl, ?_, hmax' ∘ hmax, ?_⟩
      · rw [List.map_cons, List.sum_cons, Nat.add_assoc]
      · rw [List.flatMap_cons, List.length_append, List.length_append]
        omega

end Inverse

end QueryClient.Appendix

import QueryClient.Wire.Reader

/-!
# Content behind the body

The content of large objects follows the body of a frame, in the order in which the body announces
them. Each content is cut into pieces behind their two-byte lengths and ends with a piece of length
zero. A reader does not depend on how the content was cut, and stops as soon as the contents of one
frame would pass the limit.
-/

namespace QueryClient.Appendix

/-- The most bytes in one piece. -/
def maxPiece : Nat := 65535

/-- Content cut into the fewest pieces, none of them empty. -/
def pieces (content : Bytes) : List Bytes :=
  match content with
  | [] => []
  | byte :: rest => (byte :: rest).take maxPiece :: pieces ((byte :: rest).drop maxPiece)
termination_by content.length
decreasing_by
  simp only [maxPiece, List.length_drop, List.length_cons]
  omega

/-- One piece behind its length; the empty one ends the content. -/
def writePiece (piece : Bytes) : Bytes :=
  Bytes.ofNat 2 piece.length ++ piece

/-- The content as it follows the body. -/
def write (content : Bytes) : Bytes :=
  (pieces content).flatMap writePiece ++ writePiece []

/-- Fails once the contents of one frame come to more than `max` bytes. -/
def checkTotal (total max : Nat) : Except Fault Unit :=
  if max < total then .error (.frameTooLarge total max) else .ok ()

/-- Where reading got to: how many bytes of content the frame has had, and what follows. -/
structure Progress where
  used : Nat
  reader : Reader
deriving Repr

/-- Reads pieces up to the empty one. `before` holds the pieces already read, the last one first. -/
def readPieces (max used : Nat) (before : List Bytes) (pos : Nat) :
    Bytes → Except Fault Bytes × Progress
  | high :: low :: rest =>
    let length := high.toNat * 256 + low.toNat
    if length = 0 then
      (.ok before.reverse.flatten, ⟨used, ⟨rest, pos + 2⟩⟩)
    else
      match checkTotal (used + length) max with
      | .error fault => (.error fault, ⟨used + length, ⟨rest, pos + 2⟩⟩)
      | .ok () =>
        if Bytes.holds length rest then
          readPieces max (used + length) (rest.take length :: before) (pos + 2 + length)
            (rest.drop length)
        else
          (.error (.bufferUnderflow length rest.length), ⟨used + length, ⟨rest, pos + 2⟩⟩)
  | rest => (.error (.bufferUnderflow 2 rest.length), ⟨used, ⟨rest, pos⟩⟩)
termination_by rest => rest.length
decreasing_by
  simp only [List.length_drop, List.length_cons]
  omega

def read (max : Nat) (p : Progress) : Except Fault Bytes × Progress :=
  readPieces max p.used [] p.reader.pos p.reader.rest

/-- Reads `n` contents, in order. -/
def readAll (max : Nat) : (n : Nat) → (before : List Bytes) → Progress →
    Except Fault (List Bytes) × Progress
  | 0, before, p => (.ok before.reverse, p)
  | n + 1, before, p =>
    match read max p with
    | (.error fault, p) => (.error fault, p)
    | (.ok content, p) => readAll max n (content :: before) p

end QueryClient.Appendix

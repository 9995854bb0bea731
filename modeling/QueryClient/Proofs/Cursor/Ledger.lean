import QueryClient.Cursor.Moves
import QueryClient.Proofs.Cursor.Span

/-!
# The ledger as an account

The ledger of a cursor says which fetch is outstanding: one that was granted, and after which there
was nothing but waits for it that timed out. An ask is proper after those before it when a fetch is
only asked for while none is outstanding, and a wait is only for the fetch that is.
-/

namespace QueryClient.Cursor

variable {H : Type}

/-- A fetch is outstanding once it is granted, and stays so through waits that time out. -/
inductive Outstanding : List (Ask H) → Flight H → Prop
  | granted {purpose : Purpose} {start count : Int} {atHand : Residency} {call : H}
      {before : List (Ask H)} :
      Outstanding (.requested purpose start count atHand (.ok call) :: before) ⟨start, count, call⟩
  | timedOut {flight : Flight H} {fault : Fault} {call : H} {before : List (Ask H)}
      (h : Outstanding before flight) (htimeout : fault.isTimeout = true) :
      Outstanding (.waited flight (.error fault) call :: before) { flight with call := call }

/-- Whether something may be asked after what was asked before. -/
def Ask.Proper (fetch : Int) (before : List (Ask H)) : Ask H → Prop
  | .requested purpose start count atHand _ =>
    (∀ flight, ¬ Outstanding before flight) ∧
      Span.Proper atHand fetch ⟨start, count⟩ ∧
      ∀ row, purpose = .demand row → start ≤ row ∧ row ≤ start + count - 1
  | .waited flight _ _ => Outstanding before flight
  | .abandoned flight => Outstanding before flight
  | .closed => True

/-- Whether everything in a ledger was proper when it was asked. -/
def Disciplined (fetch : Int) (ledger : List (Ask H)) : Prop :=
  ∀ entry before, entry :: before <:+ ledger → entry.Proper fetch before

theorem Disciplined.nil {fetch : Int} : Disciplined fetch ([] : List (Ask H)) := by
  intro entry before h
  cases List.suffix_nil.1 h

theorem Disciplined.cons {fetch : Int} {entry : Ask H} {before : List (Ask H)}
    (hentry : entry.Proper fetch before) (h : Disciplined fetch before) :
    Disciplined fetch (entry :: before) := by
  intro later earlier hsuffix
  rcases List.suffix_cons_iff.1 hsuffix with heq | hsuffix
  · cases heq
    exact hentry
  · exact h later earlier hsuffix

/-! ## What an ask does to the fetch that is outstanding -/

@[simp] theorem outstanding_refused {purpose : Purpose} {start count : Int} {atHand : Residency}
    {fault : Fault} {before : List (Ask H)} {flight : Flight H} :
    ¬ Outstanding (.requested purpose start count atHand (.error fault) :: before) flight := by
  rintro ⟨⟩

@[simp] theorem outstanding_granted {purpose : Purpose} {start count : Int} {atHand : Residency}
    {call : H} {before : List (Ask H)} {flight : Flight H} :
    Outstanding (.requested purpose start count atHand (.ok call) :: before) flight ↔
      flight = ⟨start, count, call⟩ := by
  constructor
  · rintro ⟨⟩
    rfl
  · rintro rfl
    exact .granted

@[simp] theorem outstanding_answered {waited flight : Flight H} {results : Results} {call : H}
    {before : List (Ask H)} :
    ¬ Outstanding (.waited waited (.ok results) call :: before) flight := by
  rintro ⟨⟩

theorem outstanding_failed {waited flight : Flight H} {fault : Fault} {call : H}
    {before : List (Ask H)} :
    Outstanding (.waited waited (.error fault) call :: before) flight ↔
      (Outstanding before waited ∧ fault.isTimeout = true) ∧
        flight = { waited with call := call } := by
  constructor
  · rintro (_ | ⟨h, ht⟩)
    exact ⟨⟨h, ht⟩, rfl⟩
  · rintro ⟨⟨h, ht⟩, rfl⟩
    exact .timedOut h ht

@[simp] theorem outstanding_abandoned {abandoned flight : Flight H} {before : List (Ask H)} :
    ¬ Outstanding (.abandoned abandoned :: before) flight := by
  rintro ⟨⟩

@[simp] theorem outstanding_closed {flight : Flight H} {before : List (Ask H)} :
    ¬ Outstanding (.closed :: before) flight := by
  rintro ⟨⟩

end QueryClient.Cursor

import QueryClient.Proofs.Cursor.Errands
import QueryClient.Proofs.Cursor.Retention

/-!
# The row that a cursor stands on

A cursor comes to stand on a row that is at hand, and eviction keeps that row. Only batches that
come in later can take it away: one with the row takes the place of the batch that had it, and one
that shares another row with that batch drives it out (`HeldSince.of_still`). So the row can be read
exactly while the last batch that came with it is overlapped by none that came after
(`current_row_standing`), which is always so over a source that keeps to what it is asked for.
-/

namespace QueryClient.Cursor

open Relation (ReflTransGen)
open Attempt Nav

variable {σ H : Type} {source : BatchSource σ H} {d e : Desk σ H} {n : Int} {a b : Batch}
  {s t : Residency}

/-! ## The last batch with a row -/

/-- A batch with a row among those that came, the last one first, that none after it overlaps. -/
def LeftStanding (n : Int) (came : List Batch) (b : Batch) : Prop :=
  ∃ later earlier, came = later ++ b :: earlier ∧ b.contains n = true ∧
    ∀ a ∈ later, b.overlaps a = false

theorem leftStanding_singleton : LeftStanding n [a] b ↔ b = a ∧ a.contains n = true := by
  constructor
  · intro h
    obtain ⟨later, earlier, hcame, hrow, -⟩ := h
    cases later with
    | nil =>
      cases hcame
      exact ⟨rfl, hrow⟩
    | cons c later => simp at hcame
  · intro h
    obtain ⟨rfl, hrow⟩ := h
    exact ⟨[], [], rfl, hrow, nofun⟩

/-- A batch that comes in stands if it has the row, and leaves standing what it does not overlap. -/
theorem leftStanding_cons {came : List Batch} : LeftStanding n (a :: came) b ↔
    (b = a ∧ a.contains n = true) ∨ (LeftStanding n came b ∧ b.overlaps a = false) := by
  constructor
  · intro h
    obtain ⟨later, earlier, hcame, hrow, hclear⟩ := h
    cases later with
    | nil =>
      cases hcame
      exact .inl ⟨rfl, hrow⟩
    | cons c later =>
      cases hcame
      exact .inr ⟨⟨later, earlier, rfl, hrow, fun a ha => hclear a (List.mem_cons_of_mem _ ha)⟩,
        hclear _ List.mem_cons_self⟩
  · intro h
    rcases h with ⟨rfl, hrow⟩ | ⟨⟨later, earlier, rfl, hrow, hclear⟩, hapart⟩
    · exact ⟨[], came, rfl, hrow, nofun⟩
    · refine ⟨a :: later, earlier, rfl, hrow, fun c hc => ?_⟩
      rcases List.mem_cons.1 hc with rfl | hc
      · exact hapart
      · exact hclear c hc

namespace Residency

theorem find_insert_iff (h : s.Valid) (ha : a.Valid) : (s.insert a).find n = some b ↔
    (b = a ∧ a.contains n = true) ∨ (s.find n = some b ∧ b.overlaps a = false) := by
  rw [find_eq_some_iff (h.insert ha), find_eq_some_iff h, mem_insert]
  constructor
  · intro hfind
    obtain ⟨rfl | ⟨hb, hapart⟩, hrow⟩ := hfind
    · exact .inl ⟨rfl, hrow⟩
    · exact .inr ⟨⟨hb, hrow⟩, hapart⟩
  · intro hfind
    rcases hfind with ⟨rfl, hrow⟩ | ⟨⟨hb, hrow⟩, hapart⟩
    · exact ⟨.inl rfl, hrow⟩
    · exact ⟨.inr ⟨hb, hapart⟩, hrow⟩

/-- What drops batches, but none with a row, leaves the row where it is. -/
theorem find_iff_of_keeps (h : s.Valid) (hsub : t.batches.Sublist s.batches)
    (hkeeps : ∀ b ∈ s.batches, b.contains n = true → b ∈ t.batches) :
    t.find n = some b ↔ s.find n = some b := by
  rw [find_eq_some_iff (h.of_sublist hsub), find_eq_some_iff h]
  constructor
  · intro hfind
    exact ⟨hsub.subset hfind.1, hfind.2⟩
  · intro hfind
    exact ⟨hkeeps b hfind.1 hfind.2, hfind.2⟩

end Residency

/-! ## Since the cursor came to stand -/

/-- What came of asks, the last one first. -/
def arrivals (asked : List (Ask H)) : List Batch :=
  asked.filterMap Ask.brought?

/-- A row was at hand in batch `b` when the ledger was `before`, and of what came since, the batch
left standing has it now. -/
def HeldSince (n : Int) (b : Batch) (before : List (Ask H)) (c : Cursor H) : Prop :=
  ∃ since, c.ledger = since ++ before ∧
    ∀ a, c.rows.find n = some a ↔ LeftStanding n (arrivals since ++ [b]) a

theorem heldSince_self {c : Cursor H} (hvalid : c.rows.Valid) (hfind : c.rows.find n = some b) :
    HeldSince n b c.ledger c := by
  have hrow := ((Residency.find_eq_some_iff hvalid).1 hfind).2
  refine ⟨[], rfl, fun a => ?_⟩
  rw [hfind, Option.some.injEq]
  show b = a ↔ LeftStanding n [b] a
  rw [leftStanding_singleton]
  constructor
  · intro h
    exact ⟨h.symm, hrow⟩
  · intro h
    exact h.1.symm

namespace HeldSince

variable {before : List (Ask H)}

theorem congr {c c' : Cursor H} (h : HeldSince n b before c) (hledger : c'.ledger = c.ledger)
    (hfind : ∀ a, c'.rows.find n = some a ↔ c.rows.find n = some a) :
    HeldSince n b before c' := by
  obtain ⟨since, hsplit, hstands⟩ := h
  exact ⟨since, hledger.trans hsplit, fun a => (hfind a).trans (hstands a)⟩

theorem of_still (hs : Sound d.cursor) (h : HeldSince n b before d.cursor)
    (hpos : d.cursor.position = .onRow n) (hstep : Still source d e) :
    HeldSince n b before e.cursor := by
  obtain ⟨since, hsplit, hstands⟩ := id h
  cases hstep with
  | mark => exact h
  | turn => exact h
  | evictBehind hpos' =>
    rw [hpos] at hpos'
    cases hpos'
    exact h.congr rfl fun a => Residency.find_iff_of_keeps hs.rows Residency.sublist_evictBehind
      fun b hb hrow => Residency.mem_evictBehind hs.rows hb hrow
  | evictAround hpos' =>
    refine h.congr rfl fun a => Residency.find_iff_of_keeps hs.rows
      Residency.sublist_evictKeeping fun b hb hrow => ?_
    rcases hpos' n hpos with rfl | rfl
    · exact Residency.mem_evictKeeping hs.rows hb hrow
    · exact Residency.mem_evictKeeping_pinned hs.rows hb hrow
  | request =>
    refine ⟨_ :: since, requested_ledger.trans (congrArg (List.cons _) hsplit), fun a => ?_⟩
    rw [requested_rows]
    exact hstands a
  | @wait flight _ outcome call =>
    refine ⟨_ :: since, received_ledger.trans (congrArg (List.cons _) hsplit), fun a => ?_⟩
    rw [received_rows]
    cases hbrought : broughtBy outcome with
    | none =>
      have hnothing : Ask.brought? (.waited flight outcome call) = none := hbrought
      rw [arrivals, List.filterMap_cons_none hnothing]
      exact hstands a
    | some c =>
      have hbatch : Ask.brought? (.waited flight outcome call) = some c := hbrought
      rw [arrivals, List.filterMap_cons_some hbatch, List.cons_append, leftStanding_cons]
      exact (Residency.find_insert_iff hs.rows (valid_of_broughtBy hbrought)).trans
        (or_congr_right (and_congr_left' (hstands a)))

theorem of_stills (hs : Sound d.cursor) (h : HeldSince n b before d.cursor)
    (hpos : d.cursor.position = .onRow n) (hsteps : ReflTransGen (Still source) d e) :
    HeldSince n b before e.cursor := by
  induction hsteps with
  | refl => exact h
  | tail hsteps hstep ih =>
    exact ih.of_still (hs.of_stills hsteps) ((position_of_stills hsteps).trans hpos) hstep

end HeldSince

/-! ## Coming to stand -/

/-- The row that the cursor comes to stand on is read as before. -/
theorem rowAt_standOn {row : Int} {cells : Row} (h : d.cursor.rows.Valid)
    (hrow : d.cursor.rows.rowAt row = .ok cells) :
    (exec (standOn source row) d).2.cursor.rows.rowAt row = .ok cells := by
  obtain ⟨b, hfind, hcells⟩ := exists_find_of_rowAt hrow
  have hseated : (seated row d).cursor.rows.find row = some b := by
    rw [rows_seated]
    split
    · exact Residency.find_evictBehind h hfind
    · exact (Residency.find_iff_of_keeps h Residency.sublist_evictKeeping fun c hc hcrow =>
        Residency.mem_evictKeeping h hc hcrow).2 hfind
  rw [rows_standOn, Residency.rowAt, hseated]
  exact hcells

variable (source) in
theorem position_standOn {row : Int} (h : d.cursor.rows.Valid)
    (hrow : d.cursor.rows.contains row = true) :
    (exec (standOn source row) d).2.cursor.position = .onRow row :=
  position_of_stills (standOn_stills h hrow : ReflTransGen (Still source) _ _)

/-- A move to a row that leaves the cursor on a row has come to stand there, or stayed. -/
theorem stays_or_lands_of_moveTo (hs : Sound d.cursor) {rounds : Nat} {target : Int}
    {heading : Heading} {r : Except Stop Bool}
    (hexec : exec (moveTo source rounds target heading) d = (r, e))
    (hpos : e.cursor.position = .onRow n) :
    ReflTransGen (Still source) d e ∨ ∃ cells, e.cursor.rows.rowAt n = .ok cells := by
  have horderly : Orderly source (moveTo source rounds target heading) d := .moveTo hs ..
  have hmoved := exec_moveTo source rounds target heading d
  rw [hexec] at hmoved
  split at hmoved
  · cases hmoved
    exact .inl .refl
  split at hmoved
  · cases hmoved
    cases hpos
  next htarget =>
  have hq : Quiet source (seek source (.row target heading) (pure ()) rounds false)
      (d.turn heading) := .seekRow (Int.not_lt.1 htarget) ..
  rcases hseek : exec (seek source (.row target heading) (pure ()) rounds false)
    (d.turn heading) with ⟨stop | found, f⟩
  · have hstill := horderly.still stop
    rw [hseek] at hmoved
    cases hmoved
    rw [hexec] at hstill
    exact .inl (hstill rfl)
  · have hsound : Sound f.cursor :=
      hs.of_stills ((ReflTransGen.single (.turn d heading)).trans (hq.stills hseek))
    rw [hseek] at hmoved
    cases found with
    | false =>
      cases hmoved
      cases hpos
    | true =>
      cases hmoved
      obtain ⟨cells, hrow⟩ := of_findRow_true (find_of_exec_seek hseek)
      have hstood := position_standOn source hsound.rows (contains_of_rowAt hrow)
      rw [hpos] at hstood
      cases hstood
      exact .inr ⟨cells, rowAt_standOn hsound.rows hrow⟩

/-- **A call** that leaves the cursor on a row has come to stand there, or taken still steps only.
-/
theorem stays_or_lands (hs : Sound d.cursor) (rounds : Nat) (call : Call)
    (hexec : e = (exec (call.perform source rounds) d).2) (hopen : e.cursor.closed = false)
    (hpos : e.cursor.position = .onRow n) :
    ReflTransGen (Still source) d e ∨ ∃ cells, e.cursor.rows.rowAt n = .ok cells := by
  obtain ⟨before, hreadied, herrand⟩ : ComesTo source d rounds call _ _ := .perform hs call
  rw [← hexec] at herrand
  generalize (exec (call.perform source rounds) d).1 = r at herrand
  have hsteps := hreadied.stills
  cases herrand with
  | stays => exact .inl hsteps
  | looks _ hrow hlooked =>
    have hquiet : Quiet source (hasRow source rounds _) before := .hasRow hrow rounds
    exact .inl (hsteps.trans (hquiet.stills hlooked))
  | goes hwent =>
    rcases stays_or_lands_of_moveTo (hs.of_stills hsteps) hwent hpos with hstill | hlanded
    · exact .inl (hsteps.trans hstill)
    · exact .inr hlanded
  | parks _ hpark => exact absurd hpos (hpark n)
  | shuts hclosed =>
    rw [hclosed] at hopen
    cases hopen

/-! ## Reading the current row -/

variable (source) in
/-- One call takes the first desk to the second, which stands on row `n`. -/
def CalledOn (n : Int) (d e : Desk σ H) : Prop :=
  Called source d e ∧ e.cursor.position = .onRow n

variable (source) in
/-- Batch `b` had the current row when the cursor came to stand on it at the end of a call, on desk
`l`, and since then calls have left the cursor there. -/
structure Landed (options : Options) (first : Results) (s : σ) (n : Int) (b : Batch)
    (l d : Desk σ H) : Prop where
  reachable : Reachable source options first s l
  position : l.cursor.position = .onRow n
  find : l.cursor.rows.find n = some b
  read : ∃ cells, b.row n = .ok cells
  calls : ReflTransGen (CalledOn source n) l d

variable {options : Options} {first : Results} {s : σ}

/-- A cursor on a row came to stand there at the end of some call. -/
theorem exists_landed (h : Reachable source options first s d) (hopen : d.cursor.closed = false)
    (hpos : d.cursor.position = .onRow n) :
    ∃ b l, Landed source options first s n b l d ∧ HeldSince n b l.cursor.ledger d.cursor := by
  obtain ⟨c, hstart, hcalls⟩ := h
  induction hcalls with
  | refl =>
    obtain ⟨-, -, rfl⟩ := of_start hstart
    cases hpos
  | @tail d e hbefore hcalled ih =>
    have hd : Reachable source options first s d := ⟨c, hstart, hbefore⟩
    have he : Reachable source options first s e := ⟨c, hstart, hbefore.tail hcalled⟩
    obtain ⟨rounds, call, hexec⟩ := id hcalled
    rcases stays_or_lands hd.sound rounds call hexec hopen hpos with hstill | ⟨cells, hrow⟩
    · have hposd := (position_of_stills hstill).symm.trans hpos
      obtain ⟨b, l, hlanded, hheld⟩ := ih ((closed_of_stills hstill).symm.trans hopen) hposd
      exact ⟨b, l, { hlanded with calls := hlanded.calls.tail ⟨hcalled, hpos⟩ },
        hheld.of_stills hd.sound hposd hstill⟩
    · obtain ⟨b, hfind, hcells⟩ := exists_find_of_rowAt hrow
      exact ⟨b, e, ⟨he, hpos, hfind, ⟨cells, hcells⟩, .refl⟩, heldSince_self he.sound.rows hfind⟩

theorem row_of_onRow {c : Cursor H} (hopen : c.closed = false) (hpos : c.position = .onRow n) :
    c.row = c.rows.rowAt n := by
  rw [row, ensureOpen, hopen, hpos]
  rfl

/-- **The row that a cursor stands on** can be read exactly if a batch is left standing of those
that came since the cursor came to stand on it in batch `b`, as long as no exception came with them:
the last one with the row, when none that came later overlaps it. There is no row to read otherwise,
which does not happen over a source that keeps to what it is asked for. -/
theorem current_row_standing (h : Reachable source options first s d)
    (hopen : d.cursor.closed = false) (hpos : d.cursor.position = .onRow n)
    (hplain : ∀ a ∈ arrivals d.cursor.ledger, a.failure = none) :
    ∃ b l since, Landed source options first s n b l d ∧
      d.cursor.ledger = since ++ l.cursor.ledger ∧
      ((∃ cells, d.cursor.row = .ok cells) ↔ ∃ a, LeftStanding n (arrivals since ++ [b]) a) ∧
      ((∀ a, ¬ LeftStanding n (arrivals since ++ [b]) a) →
        d.cursor.row = .error .noCurrentRow) ∧
      (WithinSpans d.cursor.ledger → ∃ cells, d.cursor.row = .ok cells) := by
  obtain ⟨b, l, hlanded, since, hsplit, hstands⟩ := exists_landed h hopen hpos
  have hrow := row_of_onRow hopen hpos
  have hgone : (∀ a, ¬ LeftStanding n (arrivals since ++ [b]) a) →
      d.cursor.row = .error .noCurrentRow := by
    intro hnone
    cases hfind : d.cursor.rows.find n with
    | none => rw [hrow, Residency.rowAt, hfind]
    | some a => exact absurd ((hstands a).1 hfind) (hnone a)
  have hread : ∀ a, LeftStanding n (arrivals since ++ [b]) a →
      ∃ cells, d.cursor.row = .ok cells := by
    intro a ha
    have hfind := (hstands a).2 ha
    obtain ⟨hmem, hcontains⟩ := (Residency.find_eq_some_iff h.sound.rows).1 hfind
    rw [hrow, Residency.rowAt, hfind]
    obtain ⟨later, earlier, hcame, -, -⟩ := ha
    have hamong : a ∈ arrivals since ++ [b] := hcame ▸ List.mem_append_right _ List.mem_cons_self
    rcases List.mem_append.1 hamong with harrived | hfirst
    · have hall : a ∈ arrivals d.cursor.ledger := by
        rw [hsplit, arrivals, List.filterMap_append]
        exact List.mem_append_left _ harrived
      exact (h.sound.rows.batch a hmem).exists_row (hplain a hall) hcontains
    · rw [List.mem_singleton.1 hfirst]
      exact hlanded.read
  refine ⟨b, l, since, hlanded, hsplit, ⟨?_, ?_⟩, hgone, ?_⟩
  · intro hcells
    by_contra hnone
    obtain ⟨cells, hcells⟩ := hcells
    rw [hgone (not_exists.1 hnone)] at hcells
    cases hcells
  · intro ha
    obtain ⟨a, ha⟩ := ha
    exact hread a ha
  · intro hspans
    rw [hrow]
    exact (Anchored.of_reachable h hspans).current hopen n hpos

/-- What can be reached by a list of calls. -/
theorem Reachable.afterCalls (h : Reachable source options first s d) (calls : List (Nat × Call)) :
    Reachable source options first s (afterCalls source calls d) := by
  induction calls generalizing d with
  | nil => exact h
  | cons entry calls ih => exact ih (h.call entry.1 entry.2)

/-- A new cursor on the prompt source, with the first two rows. -/
def Script.promptDesk : Desk Script (List (Except Fault Results)) where
  cursor := (blank .inPairs).extend (Engine.tableBatch 5 1 2)
  source := .prompt
  overflowed := false

/-- On the prompt source a cursor that has moved on to the third row reads it. -/
theorem current_row_standing_prompt : ∃ d : Desk Script (List (Except Fault Results)),
    d = afterCalls Script.source (List.replicate 3 (3, .move .next)) Script.promptDesk ∧
      d.cursor.position = .onRow 3 ∧
      (∃ b l since, Landed Script.source .inPairs (Engine.tableBatch 5 1 2) .prompt 3 b l d ∧
        d.cursor.ledger = since ++ l.cursor.ledger ∧
        ∃ a, LeftStanding 3 (arrivals since ++ [b]) a) ∧
      ∃ cells, d.cursor.row = .ok cells := by
  have hstart : Reachable Script.source .inPairs (Engine.tableBatch 5 1 2) .prompt
    Script.promptDesk := .start rfl
  have hreach := hstart.afterCalls (List.replicate 3 (3, .move .next))
  generalize hd : afterCalls Script.source (List.replicate 3 (3, .move .next)) Script.promptDesk =
    d at hreach
  have hseen : d.cursor.closed = false ∧ d.cursor.position = .onRow 3 ∧
      (∀ a ∈ arrivals d.cursor.ledger, a.failure = none) ∧ WithinSpans d.cursor.ledger := by
    rw [← hd]
    decide +kernel
  obtain ⟨hopen, hpos, hplain, hspans⟩ := hseen
  obtain ⟨b, l, since, hlanded, hsplit, hiff, -, hread⟩ :=
    current_row_standing hreach hopen hpos hplain
  exact ⟨d, rfl, hpos, ⟨b, l, since, hlanded, hsplit, hiff.1 (hread hspans)⟩, hread hspans⟩

/-- A scripted source that answers the first fetch with row one again, the second being the final
row. -/
def Script.resending : Script where
  total := 2
  fetches := [.accepted [.results
    { Results.batch 1 (Engine.numberedRows 1 1) false with finalRow := 2 }]]
  closeFault := none
  log := []

/-- A new cursor on the resending source, with the first two rows. -/
def Script.resendingDesk : Desk Script (List (Except Fault Results)) where
  cursor := (blank .inPairs).extend (Engine.tableBatch 5 1 2)
  source := .resending
  overflowed := false

/-- A cursor on row two asks whether it is the last. The answer brings row one, without an
exception, and with it the batch of both rows goes: the cursor still stands on row two, and cannot
read it. -/
theorem current_row_driven_out :
    let d := afterCalls Script.source [(3, .move .next), (3, .move .next), (3, .move .isLast)]
      Script.resendingDesk
    Reachable Script.source .inPairs (Engine.tableBatch 5 1 2) .resending d ∧
      (∀ a ∈ arrivals d.cursor.ledger, a.failure = none) ∧ d.cursor.closed = false ∧
      d.cursor.position = .onRow 2 ∧ d.cursor.row = .error .noCurrentRow := by
  have hstart : Reachable Script.source .inPairs (Engine.tableBatch 5 1 2) .resending
    Script.resendingDesk := .start rfl
  exact ⟨hstart.afterCalls _, by decide +kernel, rfl, rfl, rfl⟩

end QueryClient.Cursor

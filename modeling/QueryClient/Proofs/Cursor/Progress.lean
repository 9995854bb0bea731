import Mathlib.Data.Finset.Card
import QueryClient.Proofs.Cursor.Mirror

/-!
# Searches come to an end

Every answer of a source that serves a table brings rows that were missing or tells where the table
ends. A search that goes on is therefore one answer closer to its end, and needs no more rounds than
there are rows, and a few (`seek_served`). How close it is, is counted in two ways: a search for a
row keeps what it has, so missing rows are counted (`rowsLeft`); a search for the end drops rows on
its way, but always asks behind the last one (`endLeft`).
-/

namespace QueryClient.Cursor

open Relation (ReflTransGen)
open Attempt Nav

variable {σ H α : Type} {source : BatchSource σ H} {d e : Desk σ H} {table : List Row}

/-! ## One round -/

theorem Told.congr {start : Int} {c c₁ c' : Cursor H} (h : Told table start c₁ c')
    (hrows : c₁.rows = c.rows) (hfinal : c₁.finalRow = c.finalRow) : Told table start c c' := by
  cases h with
  | rows hb hfirst hlast hplain hslice hmissing hinsert hfinal' =>
    rw [hrows] at hmissing hinsert
    rw [hfinal] at hfinal'
    exact .rows hb hfirst hlast hplain hslice hmissing hinsert hfinal'
  | past hstart hunknown hrows' hfinal' =>
    rw [hrows] at hrows'
    rw [hfinal] at hunknown
    exact .past hstart hunknown hrows' hfinal'

/-- The fetch that a search awaits next: the one under way, or the one it asks for. -/
def Awaits (quest : Quest H α) (c : Cursor H) (start : Int) : Prop :=
  (∃ flight, c.flight = some flight ∧ flight.start = start) ∨
    c.flight = none ∧ (quest.span c).1.start = start

/-- A search whose requests are granted has a fetch under way, and nothing else changes. -/
theorem fetchFor_served {quest : Quest H α} {r : Except Stop Unit}
    (hexec : exec (fetchFor source quest false) d = (r, e))
    (hserves : Serves table e.cursor.ledger) :
    r = .ok () ∧ ∃ flight, e.cursor.flight = some flight ∧ Awaits quest d.cursor flight.start ∧
      e.cursor.rows = d.cursor.rows ∧ e.cursor.finalRow = d.cursor.finalRow := by
  cases hflight : d.cursor.flight with
  | some flight =>
    rw [exec_fetchFor_of_some source hflight] at hexec
    cases hexec
    exact ⟨rfl, flight, hflight, .inl ⟨flight, hflight, rfl⟩, rfl, rfl⟩
  | none =>
    rw [exec_fetchFor_of_none source hflight, exec_issue] at hexec
    simp only [noted] at hexec
    rcases hr : source.request (quest.span d.cursor).1.start (quest.span d.cursor).1.count
      d.source with ⟨outcome, t⟩
    rw [hr] at hexec
    cases hexec
    obtain ⟨call, rfl⟩ := hserves.granted _ _ _ _ outcome (by
      rw [requested_ledger]
      exact List.mem_cons_self)
    exact ⟨rfl, ⟨_, _, call⟩, rfl, .inr ⟨hflight, rfl⟩, rfl, rfl⟩

/-- A wait of a source that serves a table times out, or tells the cursor something. -/
theorem await_served (hm : Mirrors table d.cursor) {flight : Flight H}
    (hflight : d.cursor.flight = some flight) {r : Except Stop Bool}
    (hexec : exec (await source) d = (r, e)) (hserves : Serves table e.cursor.ledger) :
    (∃ fault, r = .error (.fault fault) ∧ fault.isTimeout = true) ∨
      r = .ok true ∧ e.cursor.flight = none ∧ Told table flight.start d.cursor e.cursor := by
  rcases hwait : source.wait d.cursor.options.timeout flight.call d.source with ⟨outcome, call, t⟩
  rw [exec_await_of_some hflight hwait] at hexec
  cases hexec
  have hmem :
      Ask.waited flight outcome call ∈ (d.cursor.received flight outcome call).2.ledger := by
    rw [received_ledger]
    exact List.mem_cons_self
  rcases hserves.answered flight outcome call hmem with ⟨fault, rfl, ht⟩ | ⟨results, rfl, hanswers⟩
  · exact .inl ⟨fault, rfl, ht⟩
  · obtain ⟨hprogress, htold⟩ := told_of_received hm hflight hanswers call
    refine .inr ⟨?_, ?_, htold⟩
    · rw [hprogress]
      rfl
    · rw [received_flight]

/-! ## All rounds -/

/-- A search that comes closer to its end with every answer: `left` counts the answers it may need.
-/
structure Quest.Ends (source : BatchSource σ H) (table : List Row) (quest : Quest H α)
    (settle : Nav σ H Unit) (left : Cursor H → Nat) : Prop where
  lawful : quest.Lawful
  quiet : ∀ d, Quiet source settle d
  settles : ∀ d, (exec settle d).1 = .ok ()
  plain : ∀ c, Mirrors table c → ∀ fault, quest.find c ≠ some (.error fault)
  closer : ∀ (c : Cursor H) (d : Desk σ H) start, Mirrors table c → quest.find c = none →
    Awaits quest c start → Told table start c d.cursor → Mirrors table d.cursor →
    d.cursor.flight = none → left (exec settle d).2.cursor < left c

/-- **A search** of a source that serves a table has an answer after as many rounds as it may need
answers, unless a wait times out. -/
theorem seek_served {quest : Quest H α} {settle : Nav σ H Unit} {left : Cursor H → Nat}
    (hq : quest.Ends source table settle left) {rounds : Nat} (hm : Mirrors table d.cursor)
    (hleft : left d.cursor < rounds) {r : Except Stop α}
    (hexec : exec (seek source quest settle rounds false) d = (r, e))
    (hserves : Serves table e.cursor.ledger) :
    (∃ a, r = .ok a) ∨ ∃ fault, r = .error (.fault fault) ∧ fault.isTimeout = true := by
  induction rounds generalizing d with
  | zero => omega
  | succ rounds ih =>
    cases hfind : quest.find d.cursor with
    | some found =>
      rw [exec_seek_of_find hfind] at hexec
      cases hexec
      cases found with
      | ok a => exact .inl ⟨a, rfl⟩
      | error fault => exact absurd hfind (hq.plain _ hm fault)
    | none =>
      have hfetch : Quiet source (fetchFor source quest false) d := .fetchFor hq.lawful hfind false
      cases round_of_seek hq.lawful hq.quiet hq.settles hfind hexec with
      | unfetched hfetched => cases (fetchFor_served hfetched hserves).1
      | unheard hfetched hawaited hbefore =>
        have hserves₁ := hserves.of_suffix hbefore
        have hm₁ := hm.of_stills (hfetch.stills hfetched) hserves₁
        obtain ⟨-, flight, hflight, -⟩ := fetchFor_served hfetched hserves₁
        rcases await_served hm₁ hflight hawaited hserves with ⟨fault, hstop, ht⟩ | ⟨hok, -⟩
        · cases hstop
          exact .inr ⟨fault, rfl, ht⟩
        · cases hok
      | @heard progressed _ d₁ d₂ _ hfetched hawaited hrest hbefore hafter =>
        have hserves₁ := hserves.of_suffix hbefore
        have hserves₂ := hserves.of_suffix hafter
        have hm₁ := hm.of_stills (hfetch.stills hfetched) hserves₁
        have hm₂ := hm₁.of_stills (Quiet.await.stills hawaited) hserves₂
        obtain ⟨-, flight, hflight, hawaits, hrows, hfinal⟩ := fetchFor_served hfetched hserves₁
        rcases await_served hm₁ hflight hawaited hserves₂ with
          ⟨fault, hstop, -⟩ | ⟨hok, hnone, htold⟩
        · cases hstop
        cases hok
        have hcloser := hq.closer _ d₂ _ hm hfind hawaits (htold.congr hrows hfinal) hm₂ hnone
        have hlast : Quiet source (seek source quest settle rounds (!true)) (exec settle d₂).2 :=
          .seek hq.lawful hq.quiet ..
        have hserves₃ := hserves.of_suffix (ledger_of_stills (hlast.stills hrest))
        have hm₃ := hm₂.of_stills (hq.quiet d₂).steps hserves₃
        exact ih hm₃ (by omega) hrest

/-- What a search of a source that serves a table comes to: a timeout, or what it looked for. -/
theorem search_served {quest : Quest H α} {settle : Nav σ H Unit} {left : Cursor H → Nat}
    (hq : quest.Ends source table settle left) {rounds : Nat} (hm : Mirrors table d.cursor)
    (hleft : left d.cursor < rounds) {r : Except Stop α}
    (hexec : exec (seek source quest settle rounds false) d = (r, e))
    (hserves : Serves table e.cursor.ledger) :
    Mirrors table e.cursor ∧ e.cursor.position = d.cursor.position ∧
      ((∃ fault, r = .error (.fault fault) ∧ fault.isTimeout = true) ∨
        ∃ a, r = .ok a ∧ quest.find e.cursor = some (.ok a)) := by
  have hquiet : Quiet source (seek source quest settle rounds false) d :=
    .seek hq.lawful hq.quiet ..
  have hstills := hquiet.stills hexec
  refine ⟨hm.of_stills hstills hserves, position_of_stills hstills, ?_⟩
  rcases seek_served hq hm hleft hexec hserves with ⟨a, rfl⟩ | htimeout
  · exact .inr ⟨a, rfl, find_of_exec_seek hexec⟩
  · exact .inl htimeout

/-! ## Searching for a row -/

/-- The rows of the table that are not at hand. -/
def rowsLeft (table : List Row) (c : Cursor H) : Finset Nat :=
  (Finset.range table.length).filter fun i => c.rows.contains (i + 1) = false

/-- How many answers a search for a row may need. -/
def searchLeft (table : List Row) (c : Cursor H) : Nat :=
  (rowsLeft table c).card + if c.finalRow.isNone then 1 else 0

theorem searchLeft_le (table : List Row) (c : Cursor H) :
    searchLeft table c ≤ table.length + 1 := by
  have hcard : (rowsLeft table c).card ≤ table.length := by
    simpa [rowsLeft] using Finset.card_filter_le (Finset.range table.length) _
  unfold searchLeft
  split <;> omega

/-- What is at hand stays while rows come in. -/
theorem contains_insert {s : Residency} {b : Batch} {row : Int} (h : s.Valid) (hb : b.Valid)
    (hmissing : ∀ row, b.contains row = true → s.contains row = false)
    (hrow : s.contains row = true) : (s.insert b).contains row = true := by
  obtain ⟨c, hfind⟩ := Option.isSome_iff_exists.1 hrow
  have hkept := Residency.find_insert_of_missing h hb hmissing hfind
  rw [Residency.contains, hkept]
  rfl

theorem searchLeft_lt_of_told {c c' : Cursor H} {start : Int} (hm : Mirrors table c)
    (htold : Told table start c c') : searchLeft table c' < searchLeft table c := by
  cases htold with
  | @rows b hb hfirst hlast hplain hslice hmissing hinsert hfinal =>
    have hone := hb.one_le
    have hle := hb.first_le
    have hfirstrow : b.contains b.first = true := Batch.contains_iff.2 ⟨Int.le_refl _, hle⟩
    have hindex : (((b.first - 1).toNat : Nat) : Int) + 1 = b.first := by omega
    have hcard : (rowsLeft table c').card < (rowsLeft table c).card := by
      apply Finset.card_lt_card
      refine ⟨fun i hi => ?_, fun hsubset => ?_⟩
      · simp only [rowsLeft, Finset.mem_filter, hinsert] at hi ⊢
        refine ⟨hi.1, eq_false_of_ne_true fun hrow => ?_⟩
        rw [contains_insert hm.sound.rows hb hmissing hrow] at hi
        cases hi.2
      · -- the first row of the batch was missing
        have hmem : (b.first - 1).toNat ∈ rowsLeft table c := by
          simp only [rowsLeft, Finset.mem_filter, Finset.mem_range, hindex]
          exact ⟨by omega, hmissing _ hfirstrow⟩
        have hmem' := hsubset hmem
        simp only [rowsLeft, Finset.mem_filter, hindex, hinsert] at hmem'
        have hcontains : (c.rows.insert b).contains b.first = true :=
          (Residency.contains_iff (hm.sound.rows.insert hb)).2
            ⟨b, Residency.mem_insert.2 (.inl rfl), hfirstrow⟩
        rw [hcontains] at hmem'
        cases hmem'.2
    have hnone : (if c'.finalRow.isNone then 1 else 0) ≤ if c.finalRow.isNone then 1 else 0 := by
      rcases hfinal with hsame | hknown
      · rw [hsame]
      · rw [hknown]
        exact Nat.zero_le _
    unfold searchLeft
    omega
  | past hstart hunknown hrows hfinal =>
    unfold searchLeft rowsLeft
    rw [hrows, hunknown, hfinal]
    simp

theorem row_ends {target : Int} (htarget : 1 ≤ target) (heading : Heading) :
    (Quest.row target heading : Quest H Bool).Ends source table (pure ()) (searchLeft table) where
  lawful := Quest.row_lawful htarget heading
  quiet _ := .pure ()
  settles _ := rfl
  plain c hm fault hfind := by
    simp only [Quest.row, findRow] at hfind
    split at hfind
    · next hrow =>
      have hone := Residency.one_le_of_contains hm.sound.rows hrow
      obtain ⟨cells, hcells⟩ := Mirrors.isOk_row hone (hm.le_length hrow)
      rw [hm.rowAt_eq hrow, hcells] at hfind
      cases hfind
    · split at hfind <;> cases hfind
  closer c d start hm _ _ htold _ _ := searchLeft_lt_of_told hm htold

theorem existence_ends {row : Int} (hrow : 1 ≤ row) :
    (Quest.existence row : Quest H Bool).Ends source table (pure ()) (searchLeft table) where
  lawful := Quest.existence_lawful hrow
  quiet _ := .pure ()
  settles _ := rfl
  plain c hm fault hfind := by
    simp only [Quest.existence, existsRow] at hfind
    split at hfind
    · cases hfind
    · cases hlast : c.finalRow <;> rw [hlast] at hfind <;> cases hfind
  closer c d start hm _ _ htold _ _ := searchLeft_lt_of_told hm htold

/-! ## Searching for the end -/

/-- The last row at hand, zero without one. -/
def highest (s : Residency) : Int :=
  s.highestRow.getD 0

theorem last_le_highest {s : Residency} {b : Batch} (h : s.Valid) (hb : b ∈ s.batches) :
    b.last ≤ highest s := by
  obtain ⟨row, hrow, hle⟩ := Residency.exists_highestRow h hb
  rw [highest, hrow]
  exact hle

theorem highest_le {s t : Residency} (h : t.Valid)
    (hlast : ∀ b ∈ s.batches, b.last = highest s → ∃ c ∈ t.batches, b.last ≤ c.last) :
    highest s ≤ highest t := by
  cases hrow : s.highestRow with
  | none =>
    rw [highest, hrow, Option.getD_none, highest]
    cases hrow' : t.highestRow with
    | none => exact Int.le_refl 0
    | some row =>
      obtain ⟨b, hb, rfl⟩ := Residency.of_highestRow hrow'
      have hone := (h.batch b hb).one_le
      have hle := (h.batch b hb).first_le
      rw [Option.getD_some]
      omega
  | some row =>
    obtain ⟨b, hb, hbrow⟩ := Residency.of_highestRow hrow
    have hhigh : highest s = row := by rw [highest, hrow, Option.getD_some]
    obtain ⟨c, hc, hle⟩ := hlast b hb (by omega)
    have hbound := last_le_highest h hc
    omega

/-- Dropping rows while the end is searched keeps the last one. -/
theorem keepNearEnd_keeps (h : d.cursor.rows.Valid) :
    (exec keepNearEnd d).2.cursor.finalRow = d.cursor.finalRow ∧
      (exec keepNearEnd d).2.cursor.flight = d.cursor.flight ∧
      highest d.cursor.rows ≤ highest (exec keepNearEnd d).2.cursor.rows := by
  unfold keepNearEnd
  rw [exec_bind_ok (exec_cursor d)]
  split
  · exact ⟨rfl, rfl, Int.le_refl _⟩
  · next row hrow =>
    refine ⟨rfl, rfl, highest_le (h.of_sublist Residency.sublist_evictKeeping) fun b hb hlast => ?_⟩
    have hbrow : b.last = row := by rw [hlast, highest, hrow, Option.getD_some]
    have hcontains : b.contains row = true := by
      have hle := (h.batch b hb).first_le
      exact Batch.contains_iff.2 (by omega)
    exact ⟨b, Residency.mem_evictKeeping h hb hcontains, Int.le_refl _⟩

/-- How many answers a search for the end may need. -/
def endLeft (table : List Row) (c : Cursor H) : Nat :=
  match c.finalRow with
  | some _ => 0
  | none => (table.length - highest c.rows).toNat + (if c.flight.isSome then 1 else 0) + 1

theorem endLeft_le {c : Cursor H} (hm : Mirrors table c) : endLeft table c ≤ table.length + 2 := by
  have hzero : 0 ≤ highest c.rows := by
    have hempty := highest_le (s := .empty) hm.sound.rows fun b hb => by cases hb
    exact hempty
  unfold endLeft
  split
  · omega
  · split <;> omega

theorem finalRow_ends :
    (Quest.finalRow : Quest H Int).Ends source table keepNearEnd (endLeft table) where
  lawful := Quest.finalRow_lawful
  quiet := .keepNearEnd
  settles d := by
    unfold keepNearEnd
    rw [exec_bind_ok (exec_cursor d)]
    split <;> rfl
  plain c hm fault hfind := by
    simp only [Quest.finalRow] at hfind
    cases hlast : c.finalRow <;> rw [hlast] at hfind <;> cases hfind
  closer c d start hm hfind hawaits htold hm' hflight := by
    obtain ⟨hfinal, hflight', hhigh⟩ := keepNearEnd_keeps hm'.sound.rows
    have hunknown : c.finalRow = none := Option.map_eq_none_iff.1 hfind
    cases htold with
    | past _ _ _ hknown =>
      simp only [endLeft, hfinal, hknown, hunknown]
      omega
    | @rows b hb hfirst hlast _ _ hmissing hinsert hknown =>
      have hvalid := hm.sound.rows.insert hb
      have hgrown : highest c.rows ≤ highest d.cursor.rows := by
        rw [hinsert]
        refine highest_le hvalid fun a ha _ =>
          ⟨a, Residency.mem_insert.2 (.inr ⟨ha, ?_⟩), Int.le_refl _⟩
        exact Residency.overlaps_eq_false_of_missing hm.sound.rows hb hmissing ha
      have hreached : b.last ≤ highest d.cursor.rows := by
        rw [hinsert]
        exact last_le_highest hvalid (Residency.mem_insert.2 (.inl rfl))
      have hle := hb.first_le
      simp only [endLeft, hfinal, hflight', hflight, hunknown, Option.isSome_none]
      cases hd : d.cursor.finalRow with
      | some last =>
        simp only
        omega
      | none =>
        -- the batch ends behind all others, unless its fetch was under way before
        rcases hawaits with ⟨flight, hflight, -⟩ | ⟨hfree, hstart⟩
        · simp only [hflight, Option.isSome_some, if_true]
          simp only [Bool.false_eq_true, if_false]
          omega
        · have hspan : start = highest c.rows + 1 := hstart.symm
          simp only [hfree, Option.isSome_none, Bool.false_eq_true, if_false]
          omega

end QueryClient.Cursor

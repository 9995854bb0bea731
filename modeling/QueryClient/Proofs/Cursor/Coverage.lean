import Mathlib.Order.Bounds.Basic
import QueryClient.Proofs.Cursor.Residency

/-!
# What the batches at hand cover

However batches come and go, those at hand are a partial map from row numbers
(`Residency.IsPartialMap`). What is asked about rows and about stretches of rows is answered as if
all of the batches were looked at, though each answer looks at one batch, or follows a run from one
batch to the next.
-/

namespace QueryClient.Cursor

/-- A change to the batches at hand. Results are taken in when they agree with themselves. -/
inductive Change where
  | insert (results : Results) (valid : results.validate = .ok ())
  | evictBehind (row : Int)
  | evictTo (limit : Nat) (row : Int)
  | evictKeeping (limit : Nat) (row : Int) (pinned : Option Int)
  | clear

/-- A condition that is stronger, and fails for some element that satisfies the weaker one, counts
fewer. -/
theorem countP_lt_of_imp {α : Type} {l : List α} {a : α} {p q : α → Bool} (ha : a ∈ l)
    (hp : p a = true) (hq : q a = false) (hqp : ∀ b, q b = true → p b = true) :
    l.countP q < l.countP p := by
  obtain ⟨front, rear, rfl⟩ := List.append_of_mem ha
  have hfront : front.countP q ≤ front.countP p := List.countP_mono_left fun b _ => hqp b
  have hrear : rear.countP q ≤ rear.countP p := List.countP_mono_left fun b _ => hqp b
  rw [List.countP_append, List.countP_append, List.countP_cons_of_pos hp,
    List.countP_cons_of_neg (Bool.eq_false_iff.1 hq)]
  omega

namespace Residency

variable {s : Residency} {a b c : Batch} {l : List Batch} {row : Int}

/-- The batches at hand after a change; results without rows and without a failure bring none. -/
def change (s : Residency) : Change → Residency
  | .insert results _ =>
    match Batch.ofResults? results with
    | some b => s.insert b
    | none => s
  | .evictBehind row => s.evictBehind row
  | .evictTo limit row => s.evictTo limit row
  | .evictKeeping limit row pinned => s.evictKeeping limit row pinned
  | .clear => .empty

/-- The batches at hand after some changes, none at first. -/
def after (changes : List Change) : Residency :=
  changes.foldl change .empty

theorem Valid.change (h : s.Valid) (change : Change) : (s.change change).Valid := by
  cases change with
  | insert results hresults =>
    cases hb : Batch.ofResults? results with
    | some b =>
      simp only [Residency.change, hb]
      exact h.insert (Batch.valid_of_ofResults? hresults hb)
    | none =>
      simp only [Residency.change, hb]
      exact h
  | evictBehind row => exact h.of_sublist sublist_evictBehind
  | evictTo limit row => exact h.of_sublist sublist_evictKeeping
  | evictKeeping limit row pinned => exact h.of_sublist sublist_evictKeeping
  | clear => exact .empty

theorem Valid.changes (h : s.Valid) (changes : List Change) :
    (changes.foldl Residency.change s).Valid := by
  induction changes generalizing s with
  | nil => exact h
  | cons first rest ih => exact ih (h.change first)

theorem contains_eq_false_of_find (hfind : s.find row = none) : s.contains row = false := by
  rw [contains, hfind]
  rfl

/-! ## Runs -/

/-- Where a run of rows that goes on from `last` ends: no batch goes further. -/
structure EndsRun (l : List Batch) (last stop : Int) : Prop where
  le : last ≤ stop
  covered : ∀ r, last < r → r ≤ stop → ∃ b ∈ l, b.contains r = true
  stops : ∀ b ∈ l, b.contains (stop + 1) = false

/-- Where a run of rows that goes back from `first` begins: no batch goes further back. -/
structure BeginsRun (l : List Batch) (first stop : Int) : Prop where
  le : stop ≤ first
  covered : ∀ r, stop ≤ r → r < first → ∃ b ∈ l, b.contains r = true
  stops : ∀ b ∈ l, b.contains (stop - 1) = false

theorem EndsRun.here {last : Int} (h : ∀ b ∈ l, b.contains (last + 1) = false) :
    EndsRun l last last :=
  ⟨Int.le_refl _, fun _ hr hr' => absurd hr' (Int.not_le.2 hr), h⟩

theorem EndsRun.cons {last stop : Int} (h : EndsRun l last stop)
    (hb : b.contains (stop + 1) = false) : EndsRun (b :: l) last stop := by
  refine ⟨h.le, fun r hr hr' => ?_, List.forall_mem_cons.2 ⟨hb, h.stops⟩⟩
  obtain ⟨c, hc, hrow⟩ := h.covered r hr hr'
  exact ⟨c, List.mem_cons_of_mem _ hc, hrow⟩

/-- The run goes on through a batch that begins behind it. -/
theorem EndsRun.through {last stop : Int} (h : EndsRun l b.last stop) (hb : b ∈ l)
    (hspan : b.first ≤ b.last) (hnext : b.first = last + 1) : EndsRun l last stop := by
  have hle := h.le
  refine ⟨by omega, fun r hr hr' => ?_, h.stops⟩
  by_cases hin : r ≤ b.last
  · exact ⟨b, hb, Batch.contains_iff.2 ⟨by omega, hin⟩⟩
  · exact h.covered r (by omega) hr'

theorem BeginsRun.here {first : Int} (h : ∀ b ∈ l, b.contains (first - 1) = false) :
    BeginsRun l first first :=
  ⟨Int.le_refl _, fun _ hr hr' => absurd hr (Int.not_le.2 hr'), h⟩

theorem BeginsRun.cons {first stop : Int} (h : BeginsRun l first stop)
    (hb : b.contains (stop - 1) = false) : BeginsRun (b :: l) first stop := by
  refine ⟨h.le, fun r hr hr' => ?_, List.forall_mem_cons.2 ⟨hb, h.stops⟩⟩
  obtain ⟨c, hc, hrow⟩ := h.covered r hr hr'
  exact ⟨c, List.mem_cons_of_mem _ hc, hrow⟩

theorem BeginsRun.of_mem_iff {l' : List Batch} {first stop : Int} (h : BeginsRun l first stop)
    (hmem : ∀ b, b ∈ l ↔ b ∈ l') : BeginsRun l' first stop := by
  refine ⟨h.le, fun r hr hr' => ?_, fun b hb => h.stops b ((hmem b).2 hb)⟩
  obtain ⟨b, hb, hrow⟩ := h.covered r hr hr'
  exact ⟨b, (hmem b).1 hb, hrow⟩

/-- The run goes back through the batch with the row before it. -/
theorem BeginsRun.through {first stop : Int} (h : BeginsRun l b.first stop) (hb : b ∈ l)
    (hback : b.contains (first - 1) = true) : BeginsRun l first stop := by
  have hle := h.le
  have hspan := Batch.contains_iff.1 hback
  refine ⟨by omega, fun r hr hr' => ?_, h.stops⟩
  by_cases hin : b.first ≤ r
  · exact ⟨b, hb, Batch.contains_iff.2 ⟨hin, by omega⟩⟩
  · exact h.covered r hr (by omega)

/-- A row with which every batch ends that begins at or before it. -/
def Edge (l : List Batch) (last : Int) : Prop :=
  ∀ b ∈ l, b.first ≤ last → b.last ≤ last

theorem Valid.edge (h : s.Valid) (hb : b ∈ s.batches) : Edge s.batches b.last := by
  intro c hc hle
  have hspan := (h.batch b hb).first_le
  rcases h.apart hc hb with rfl | hcb | hbc
  · exact Int.le_refl _
  · omega
  · omega

/-- A run is followed on in one pass, since the batches are in order. -/
theorem endsRun_runEnd (hordered : l.Pairwise fun a b => a.last < b.first)
    (hvalid : ∀ b ∈ l, b.Valid) {last : Int} (hedge : Edge l last) :
    EndsRun l last (runEnd last l) := by
  induction hordered generalizing last with
  | nil => exact .here nofun
  | @cons b l hhead _ ih =>
    rw [List.forall_mem_cons] at hvalid
    have hspan := hvalid.1.first_le
    have hbedge := hedge b List.mem_cons_self
    rw [runEnd]
    split
    · next hnext =>
      have hedge' : Edge l b.last := by
        intro c hc hle
        have hbehind := hhead c hc
        omega
      have hrun := ih hvalid.2 hedge'
      have hle := hrun.le
      refine (hrun.cons ?_).through List.mem_cons_self hspan hnext
      rw [← Bool.not_eq_true, Batch.contains_iff]
      omega
    · next hnext =>
      have hrun := ih hvalid.2 fun c hc => hedge c (List.mem_cons_of_mem _ hc)
      have hle := hrun.le
      apply hrun.cons
      rw [← Bool.not_eq_true, Batch.contains_iff]
      -- a run that has gone on is covered at its end by a batch behind `b`
      by_cases hgone : runEnd last l = last
      · omega
      · obtain ⟨c, hc, hrow⟩ := hrun.covered _ (by omega) (Int.le_refl _)
        have hbehind := hhead c hc
        have hcspan := Batch.contains_iff.1 hrow
        omega

/-- A run is followed back in one pass, since the batches are in order. -/
theorem beginsRun_runStart (hordered : l.Pairwise fun a b => b.last < a.first)
    (first : Int) : BeginsRun l first (runStart first l) := by
  induction hordered generalizing first with
  | nil => exact .here nofun
  | @cons b l hhead _ ih =>
    rw [runStart]
    split
    · next hback =>
      have hrun := ih b.first
      have hle := hrun.le
      refine (hrun.cons ?_).through List.mem_cons_self hback
      rw [← Bool.not_eq_true, Batch.contains_iff]
      omega
    · next hback =>
      have hrun := ih first
      have hle := hrun.le
      apply hrun.cons
      -- a run that has gone back is covered at its start by a batch before `b`
      by_cases hgone : runStart first l = first
      · rw [hgone]
        exact Bool.eq_false_iff.2 hback
      · obtain ⟨c, hc, hrow⟩ := hrun.covered _ (Int.le_refl _) (by omega)
        have hbefore := hhead c hc
        have hcspan := Batch.contains_iff.1 hrow
        rw [← Bool.not_eq_true, Batch.contains_iff]
        omega

/-- The rows up to which all rows from `row` on are at hand; the row before it is one of them. -/
def ahead (s : Residency) (row : Int) : Set Int :=
  {stop | row - 1 ≤ stop ∧ ∀ r, row ≤ r → r ≤ stop → s.contains r = true}

/-- The rows from which on all rows up to `row` are at hand; the row after it is one of them. -/
def back (s : Residency) (row : Int) : Set Int :=
  {stop | stop ≤ row + 1 ∧ ∀ r, stop ≤ r → r ≤ row → s.contains r = true}

theorem isGreatest_of_endsRun (h : s.Valid) (hb : b ∈ s.batches) (hrow : b.contains row = true)
    {stop : Int} (hrun : EndsRun s.batches b.last stop) : IsGreatest (s.ahead row) stop := by
  have hspan := Batch.contains_iff.1 hrow
  have hle := hrun.le
  constructor
  · refine ⟨by omega, fun r hr hr' => (contains_iff h).2 ?_⟩
    by_cases hin : r ≤ b.last
    · exact ⟨b, hb, Batch.contains_iff.2 ⟨by omega, hin⟩⟩
    · exact hrun.covered r (by omega) hr'
  · rintro further ⟨-, hfurther⟩
    refine Int.not_lt.1 fun hlt => ?_
    obtain ⟨c, hc, hnext⟩ := (contains_iff h).1 (hfurther (stop + 1) (by omega) (by omega))
    rw [hrun.stops c hc] at hnext
    cases hnext

theorem isLeast_of_beginsRun (h : s.Valid) (hb : b ∈ s.batches) (hrow : b.contains row = true)
    {stop : Int} (hrun : BeginsRun s.batches b.first stop) : IsLeast (s.back row) stop := by
  have hspan := Batch.contains_iff.1 hrow
  have hle := hrun.le
  constructor
  · refine ⟨by omega, fun r hr hr' => (contains_iff h).2 ?_⟩
    by_cases hin : b.first ≤ r
    · exact ⟨b, hb, Batch.contains_iff.2 ⟨hin, by omega⟩⟩
    · exact hrun.covered r hr (by omega)
  · rintro further ⟨-, hfurther⟩
    refine Int.not_lt.1 fun hlt => ?_
    obtain ⟨c, hc, hbefore⟩ := (contains_iff h).1 (hfurther (stop - 1) (by omega) (by omega))
    rw [hrun.stops c hc] at hbefore
    cases hbefore

/-- From a row that is not at hand no run goes on. -/
theorem isGreatest_ahead_of_missing (hrow : s.contains row = false) :
    IsGreatest (s.ahead row) (row - 1) := by
  refine ⟨⟨Int.le_refl _, fun r hr hr' => by omega⟩, ?_⟩
  rintro stop ⟨-, hstop⟩
  refine Int.not_lt.1 fun hlt => ?_
  rw [hstop row (Int.le_refl _) (by omega)] at hrow
  cases hrow

theorem isLeast_back_of_missing (hrow : s.contains row = false) :
    IsLeast (s.back row) (row + 1) := by
  refine ⟨⟨Int.le_refl _, fun r hr hr' => by omega⟩, ?_⟩
  rintro stop ⟨-, hstop⟩
  refine Int.not_lt.1 fun hlt => ?_
  rw [hstop row (by omega) (Int.le_refl _)] at hrow
  cases hrow

/-- So many turns of the loop that follows a run on: each goes to the end of the batch that begins
behind it. -/
def followOn (s : Residency) : (turns : Nat) → (last : Int) → Int
  | 0, last => last
  | turns + 1, last =>
    match s.batches.find? fun b => b.first = last + 1 with
    | some b => s.followOn turns b.last
    | none => last

/-- So many turns of the loop that follows a run back: each goes to the beginning of the batch with
the row before it. -/
def followBack (s : Residency) : (turns : Nat) → (first : Int) → Int
  | 0, first => first
  | turns + 1, first =>
    match s.find (first - 1) with
    | some b => s.followBack turns b.first
    | none => first

/-- A batch behind which none begins ends its run. -/
theorem Valid.endsRun (h : s.Valid) (hb : b ∈ s.batches)
    (hnone : ∀ c ∈ s.batches, c.first ≠ b.last + 1) : EndsRun s.batches b.last b.last := by
  refine .here fun c hc => ?_
  have hedge := h.edge hb c hc
  have hbegins := hnone c hc
  rw [← Bool.not_eq_true, Batch.contains_iff]
  omega

/-- As many turns as there are batches that a run may go on through are enough. -/
theorem endsRun_followOn (h : s.Valid) (hb : b ∈ s.batches) {turns : Nat}
    (hturns : (s.batches.countP fun c => b.last < c.first) ≤ turns) :
    EndsRun s.batches b.last (s.followOn turns b.last) := by
  induction turns generalizing b with
  | zero =>
    apply h.endsRun hb
    intro c hc hnext
    have hnone := List.countP_eq_zero.1 (Nat.le_zero.1 hturns) c hc
    simp only [decide_eq_true_eq] at hnone
    omega
  | succ turns ih =>
    rw [followOn]
    split
    · next c hfind =>
      have hc := List.mem_of_find?_eq_some hfind
      have hnext : c.first = b.last + 1 := by simpa using List.find?_some hfind
      have hspan := (h.batch c hc).first_le
      have hfewer : (s.batches.countP fun d => c.last < d.first) <
          s.batches.countP fun d => b.last < d.first := by
        apply countP_lt_of_imp hc
        · rw [decide_eq_true_eq]
          omega
        · rw [decide_eq_false_iff_not]
          omega
        · intro d
          simp only [decide_eq_true_eq]
          omega
      exact (ih hc (by omega)).through hc hspan hnext
    · next hfind =>
      apply h.endsRun hb
      intro c hc
      simpa using List.find?_eq_none.1 hfind c hc

theorem beginsRun_followBack (h : s.Valid) {turns : Nat} {first : Int}
    (hturns : (s.batches.countP fun c => c.first < first) ≤ turns) :
    BeginsRun s.batches first (s.followBack turns first) := by
  induction turns generalizing first with
  | zero =>
    refine .here fun c hc => ?_
    have hnone := List.countP_eq_zero.1 (Nat.le_zero.1 hturns) c hc
    simp only [decide_eq_true_eq] at hnone
    rw [← Bool.not_eq_true, Batch.contains_iff]
    omega
  | succ turns ih =>
    rw [followBack]
    split
    · next c hfind =>
      obtain ⟨hc, hback⟩ := (find_eq_some_iff h).1 hfind
      have hspan := Batch.contains_iff.1 hback
      have hfewer : (s.batches.countP fun d => d.first < c.first) <
          s.batches.countP fun d => d.first < first := by
        apply countP_lt_of_imp hc
        · rw [decide_eq_true_eq]
          omega
        · rw [decide_eq_false_iff_not]
          omega
        · intro d
          simp only [decide_eq_true_eq]
          omega
      exact (ih (by omega)).through hc hback
    · next hfind =>
      exact .here ((contains_eq_false_iff h).1 (contains_eq_false_of_find hfind))

theorem isGreatest_contiguousEnd (h : s.Valid) (row : Int) :
    IsGreatest (s.ahead row) (s.contiguousEnd row) := by
  cases hfind : s.find row with
  | some b =>
    obtain ⟨hb, hrow⟩ := (find_eq_some_iff h).1 hfind
    simp only [contiguousEnd, hfind]
    exact isGreatest_of_endsRun h hb hrow (endsRun_runEnd h.ordered h.batch (h.edge hb))
  | none =>
    simp only [contiguousEnd, hfind]
    exact isGreatest_ahead_of_missing (contains_eq_false_of_find hfind)

theorem isLeast_contiguousStart (h : s.Valid) (row : Int) :
    IsLeast (s.back row) (s.contiguousStart row) := by
  cases hfind : s.find row with
  | some b =>
    obtain ⟨hb, hrow⟩ := (find_eq_some_iff h).1 hfind
    simp only [contiguousStart, hfind]
    have hrun := beginsRun_runStart (List.pairwise_reverse.2 h.ordered) b.first
    exact isLeast_of_beginsRun h hb hrow (hrun.of_mem_iff fun c => List.mem_reverse)
  | none =>
    simp only [contiguousStart, hfind]
    exact isLeast_back_of_missing (contains_eq_false_of_find hfind)

/-- The loop that follows a run on has come to its end after as many turns as there are batches. -/
theorem followOn_eq (h : s.Valid) (hfind : s.find row = some b) {turns : Nat}
    (hturns : s.size ≤ turns) : s.followOn turns b.last = s.contiguousEnd row := by
  obtain ⟨hb, hrow⟩ := (find_eq_some_iff h).1 hfind
  have hrun := endsRun_followOn h hb (List.countP_le_length.trans hturns)
  exact (isGreatest_of_endsRun h hb hrow hrun).unique (isGreatest_contiguousEnd h row)

theorem followBack_eq (h : s.Valid) (hfind : s.find row = some b) {turns : Nat}
    (hturns : s.size ≤ turns) : s.followBack turns b.first = s.contiguousStart row := by
  obtain ⟨hb, hrow⟩ := (find_eq_some_iff h).1 hfind
  have hrun : BeginsRun s.batches b.first (s.followBack turns b.first) :=
    beginsRun_followBack h (List.countP_le_length.trans hturns)
  exact (isLeast_of_beginsRun h hb hrow hrun).unique (isLeast_contiguousStart h row)

/-! ## The partial map -/

/-- The batches that share a row are those that overlap. -/
theorem overlaps_eq_false_iff_apart (ha : a.first ≤ a.last) (hb : b.first ≤ b.last) :
    a.overlaps b = false ↔ ∀ row, ¬ (a.contains row = true ∧ b.contains row = true) := by
  simp only [Batch.overlaps_eq_false_iff, Batch.contains_iff]
  constructor
  · intro happart row
    omega
  · intro happart
    have hfirst := happart (max a.first b.first)
    omega

/-- Rows are known by their numbers: each is looked up in the one batch that covers it, and the
stretches of rows at hand are what they are called. -/
structure IsPartialMap (s : Residency) : Prop where
  keys : (s.batches.map Batch.first).Pairwise (· < ·)
  spans : ∀ b ∈ s.batches, b.first ≤ b.last ∧
    ((b.rows.length : Int) = b.last - b.first + 1 ∨ b.failure.isSome)
  apart : s.batches.Pairwise fun a b => ∀ row, ¬ (a.contains row = true ∧ b.contains row = true)
  /-- A batch that is taken in drives out exactly those that share a row with it. -/
  inserted : ∀ results b, results.validate = .ok () → Batch.ofResults? results = some b →
    ∀ c, c ∈ (s.insert b).batches ↔
      c = b ∨ c ∈ s.batches ∧ ∀ row, ¬ (c.contains row = true ∧ b.contains row = true)
  contains_iff : ∀ row, s.contains row = true ↔ ∃ b ∈ s.batches, b.contains row = true
  row : ∀ b ∈ s.batches, ∀ row, b.contains row = true → b.failure = none →
    ∃ cells, b.rows[(row - b.first).toNat]? = some cells ∧ s.rowAt row = .ok cells
  failure : ∀ b ∈ s.batches, ∀ row, b.contains row = true → ∀ e, b.failure = some e →
    s.rowAt row = .error (.remote e)
  missing : ∀ row, s.contains row = false → s.rowAt row = .error .noCurrentRow ∧
    s.contiguousEnd row = row - 1 ∧ s.contiguousStart row = row + 1
  contiguousEnd : ∀ row, IsGreatest (s.ahead row) (s.contiguousEnd row)
  contiguousStart : ∀ row, IsLeast (s.back row) (s.contiguousStart row)
  nextStartAfter : ∀ row next, s.nextStartAfter row = some next ↔
    IsLeast {first | row < first ∧ ∃ b ∈ s.batches, b.first = first} next
  prevEndBefore : ∀ row prev, s.prevEndBefore row = some prev ↔
    IsGreatest {last | last < row ∧ ∃ b ∈ s.batches, b.last = last} prev
  highestRow : ∀ highest, s.highestRow = some highest ↔
    IsGreatest {row | s.contains row = true} highest
  /-- The loops that follow a run end, after no more turns than there are batches. -/
  loops : ∀ row b, s.find row = some b → ∀ turns ≥ s.size,
    s.followOn turns b.last = s.contiguousEnd row ∧
      s.followBack turns b.first = s.contiguousStart row

section Extremes

/-- An optional answer is the only one that fits, if it fits and if there is one whenever one fits.
-/
theorem eq_some_iff_of_unique {answer : Option Int} {fits : Int → Prop}
    (hfits : ∀ n, answer = some n → fits n) (hsome : ∀ n, fits n → ∃ m, answer = some m)
    (hunique : ∀ m n, fits m → fits n → m = n) {n : Int} : answer = some n ↔ fits n := by
  constructor
  · exact hfits n
  · intro hn
    obtain ⟨m, hm⟩ := hsome n hn
    rw [hm, hunique m n (hfits m hm) hn]

theorem nextStartAfter_eq_some_iff (h : s.Valid) {next : Int} :
    s.nextStartAfter row = some next ↔
      IsLeast {first | row < first ∧ ∃ b ∈ s.batches, b.first = first} next := by
  refine eq_some_iff_of_unique ?_ ?_ fun _ _ => IsLeast.unique
  · intro nearest hnearest
    obtain ⟨b, hb, hfirst, hlt⟩ := of_nextStartAfter hnearest
    refine ⟨⟨hlt, b, hb, hfirst⟩, ?_⟩
    rintro _ ⟨hlt, c, hc, rfl⟩
    exact le_of_nextStartAfter h hnearest hc hlt
  · rintro _ ⟨⟨hlt, b, hb, rfl⟩, -⟩
    obtain ⟨nearest, hnearest, -⟩ := exists_nextStartAfter h hb hlt
    exact ⟨nearest, hnearest⟩

theorem prevEndBefore_eq_some_iff (h : s.Valid) {prev : Int} :
    s.prevEndBefore row = some prev ↔
      IsGreatest {last | last < row ∧ ∃ b ∈ s.batches, b.last = last} prev := by
  refine eq_some_iff_of_unique ?_ ?_ fun _ _ => IsGreatest.unique
  · intro nearest hnearest
    obtain ⟨b, hb, hlast, hlt⟩ := of_prevEndBefore hnearest
    refine ⟨⟨hlt, b, hb, hlast⟩, ?_⟩
    rintro _ ⟨hlt, c, hc, rfl⟩
    exact le_of_prevEndBefore h hnearest hc hlt
  · rintro _ ⟨⟨hlt, b, hb, rfl⟩, -⟩
    obtain ⟨nearest, hnearest, -⟩ := exists_prevEndBefore h hb hlt
    exact ⟨nearest, hnearest⟩

theorem highestRow_eq_some_iff (h : s.Valid) {highest : Int} :
    s.highestRow = some highest ↔ IsGreatest {row | s.contains row = true} highest := by
  refine eq_some_iff_of_unique ?_ ?_ fun _ _ => IsGreatest.unique
  · intro top htop
    obtain ⟨b, hb, rfl⟩ := of_highestRow htop
    have hspan := (h.batch b hb).first_le
    refine ⟨(contains_iff h).2 ⟨b, hb, Batch.contains_iff.2 ⟨hspan, Int.le_refl _⟩⟩, ?_⟩
    intro row hrow
    obtain ⟨c, hc, hcrow⟩ := (contains_iff h).1 hrow
    obtain ⟨top', htop', hle⟩ := exists_highestRow h hc
    rw [htop] at htop'
    cases htop'
    exact (Batch.contains_iff.1 hcrow).2.trans hle
  · rintro row ⟨hrow, -⟩
    obtain ⟨b, hb, -⟩ := (contains_iff h).1 hrow
    obtain ⟨top, htop, -⟩ := exists_highestRow h hb
    exact ⟨top, htop⟩

end Extremes

theorem Valid.isPartialMap (h : s.Valid) : s.IsPartialMap where
  keys := by
    rw [List.pairwise_map]
    exact h.keyed
  spans b hb := by
    refine ⟨(h.batch b hb).first_le, ?_⟩
    cases hfailure : b.failure with
    | none => exact .inl ((h.batch b hb).length_eq hfailure)
    | some e => exact .inr rfl
  apart := by
    refine h.ordered.imp fun {a b} hab row => ?_
    simp only [Batch.contains_iff]
    omega
  inserted results b hresults hb c := by
    rw [mem_insert]
    refine or_congr_right (and_congr_right fun hc => ?_)
    exact overlaps_eq_false_iff_apart (h.batch c hc).first_le
      (Batch.valid_of_ofResults? hresults hb).first_le
  contains_iff row := contains_iff h
  row b hb row hrow hplain := by
    have hspan := Batch.contains_iff.1 hrow
    have hlength := (h.batch b hb).length_eq hplain
    have hindex : (row - b.first).toNat < b.rows.length := by omega
    refine ⟨b.rows[(row - b.first).toNat], List.getElem?_eq_getElem hindex, ?_⟩
    simp [rowAt, (find_eq_some_iff h).2 ⟨hb, hrow⟩, Batch.row, hplain, hrow, hindex]
  failure b hb row hrow e hfailure := by
    simp only [rowAt, (find_eq_some_iff h).2 ⟨hb, hrow⟩, Batch.row, hfailure]
  missing row hrow := by
    have hfind : s.find row = none := by
      rwa [contains, Option.isSome_eq_false_iff, Option.isNone_iff_eq_none] at hrow
    simp only [rowAt, Residency.contiguousEnd, Residency.contiguousStart, hfind, and_self]
  contiguousEnd := isGreatest_contiguousEnd h
  contiguousStart := isLeast_contiguousStart h
  nextStartAfter _ _ := nextStartAfter_eq_some_iff h
  prevEndBefore _ _ := prevEndBefore_eq_some_iff h
  highestRow _ := highestRow_eq_some_iff h
  loops row b hfind turns hturns := ⟨followOn_eq h hfind hturns, followBack_eq h hfind hturns⟩

/-- However batches are taken in and dropped, those at hand are a partial map from row numbers. -/
theorem isPartialMap_after (changes : List Change) : (after changes).IsPartialMap :=
  (Valid.empty.changes changes).isPartialMap

/-- Rows 1 to 3, a failure that covers row 6, and then the rows in between. -/
def patched : List Change :=
  [.insert ⟨1, 3, -1, [], [[], [], []], none, [], none⟩ rfl,
    .insert ⟨6, 6, -1, [], [], none, [], some ⟨none, none, "lost"⟩⟩ rfl,
    .insert ⟨4, 5, -1, [], [[], [.null]], none, [], none⟩ rfl]

/-- A gap that is filled joins the runs on both of its sides. -/
theorem isPartialMap_after_patched :
    (after patched).rowAt 5 = .ok [.null] ∧
      (after patched).rowAt 6 = .error (.remote ⟨none, none, "lost"⟩) ∧
      IsGreatest ((after patched).ahead 2) 6 ∧ IsLeast ((after patched).back 6) 1 := by
  have hbatches : (after patched).batches = [⟨1, 3, [[], [], []], none⟩,
    ⟨4, 5, [[], [.null]], none⟩, ⟨6, 6, [], some ⟨none, none, "lost"⟩⟩] := rfl
  have hmap := isPartialMap_after patched
  refine ⟨?_, ?_, hmap.contiguousEnd 2, hmap.contiguousStart 6⟩
  · obtain ⟨cells, hcells, hrow⟩ :=
      hmap.row ⟨4, 5, [[], [.null]], none⟩ (by simp [hbatches]) 5 rfl rfl
    cases hcells
    exact hrow
  · exact hmap.failure ⟨6, 6, [], some ⟨none, none, "lost"⟩⟩ (by simp [hbatches]) 6 rfl _ rfl

end Residency

end QueryClient.Cursor

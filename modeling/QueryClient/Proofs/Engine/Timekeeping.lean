import QueryClient.Engine.Server
import QueryClient.Proofs.Session.Traffic

/-!
# The engine in memory keeps time

An engine works through what its client has sent in no time at all. Time passes where the client
waits, and then it goes straight to the next moment at which something is due, or to the end of the
wait. So the link to an engine that has its replies due at different moments brings just these.
-/

namespace QueryClient.Engine

/-! ## Working takes no time -/

@[simp] theorem now_send (bytes : Bytes) (e : Engine) : (e.send bytes).now = e.now := by
  unfold send
  split <;> rfl

@[simp] theorem now_sendAfter (delay : Duration) (bytes : Bytes) (e : Engine) :
    (e.sendAfter delay bytes).now = e.now := by
  unfold sendAfter
  split
  · exact now_send bytes e
  · rfl

theorem now_nextChunk (stream : Int64) (object : String) (e : Engine) :
    (e.nextChunk stream object).2.now = e.now := by
  unfold nextChunk
  split <;> rfl

theorem now_answer (call : Invocation) (e : Engine) : (e.answer call).2.now = e.now := by
  unfold answer
  split <;> first | rfl | exact now_nextChunk ..

theorem now_handle (call : Invocation) (e : Engine) : (e.handle call).now = e.now := by
  unfold handle
  dsimp only
  split
  · rw [replyAfter, now_sendAfter, now_answer]
  · rfl
  · rfl
  · rw [replyAfter, now_sendAfter]
  · rw [now_sendAfter]
  · rw [now_sendAfter]

theorem now_hear (arrivals : List (Except Fault Message)) (e : Engine) :
    (hear arrivals e).now = e.now := by
  induction arrivals generalizing e with
  | nil => rfl
  | cons arrival rest ih =>
    unfold hear
    split
    · split
      · exact ih _
      · dsimp only
        split
        · rw [ih, now_handle]
        · exact ih _
    · rfl

theorem now_work (e : Engine) : e.work.now = e.now :=
  now_hear _ _

/-! ## What an engine brings -/

open Delivery

variable {e : Engine}

/-- What an engine is about to send, as deliveries. -/
def dues (e : Engine) : List Delivery :=
  e.due.map fun piece => ⟨piece.1, ⟨[piece.2], .quiet⟩⟩

/-- An engine that has heard its client out, and has nothing to say but what is due. -/
structure Ready (e : Engine) : Prop where
  heardOut : Inflow.Drained e.plan.allowed Frame.defaultMax ⟨e.incoming, .quiet⟩
  unsaid : e.sent = []
  talking : e.hungUp = false
  inOrder : InOrder e.now e.dues
  nonempty : ∀ piece ∈ e.due, piece.2 ≠ []

theorem Ready.work (h : e.Ready) : e.work = e := by
  simp only [Engine.work, h.heardOut.arrivals, hear]

theorem Ready.hasNews (h : e.Ready) : e.hasNews = false := by
  simp [Engine.hasNews, h.unsaid, h.talking]

/-- Whether an engine that is waited for brings just some deliveries. -/
structure Brings (ds : List Delivery) (e : Engine) : Prop where
  ready : e.work.Ready
  dues : e.work.dues = ds

theorem Ready.brings (h : e.Ready) : e.Brings e.dues := by
  have hwork := h.work
  exact ⟨by rwa [hwork], by rw [hwork]⟩

theorem passUntil_of_quiet (h : e.Ready) {moment : Instant} (hmoment : e.now ≤ moment)
    (hdue : ∀ d ∈ e.dues, moment < d.moment) :
    passUntil moment e.due e =
      (⟨[], .quiet⟩, { e with now := moment, hangUpTold := false }) := by
  have hmax : max e.now moment = moment := max_eq_right hmoment
  rcases hpieces : e.due with _ | ⟨⟨first, bytes⟩, rest⟩
  · simp [passUntil, h.hasNews, handOver, h.unsaid, h.talking, hmax]
  · have hlate : ¬ first ≤ moment :=
      Nat.not_le_of_lt (hdue ⟨first, ⟨[bytes], .quiet⟩⟩ (by simp [dues, hpieces]))
    simp [passUntil, h.hasNews, handOver, h.unsaid, h.talking, hmax, hlate]

theorem passUntil_of_due (h : e.Ready) {moment first : Instant} {bytes : Bytes}
    {rest : List (Instant × Bytes)} (hpieces : e.due = (first, bytes) :: rest)
    (hdue : first ≤ moment) :
    passUntil moment e.due e = (⟨[bytes], .quiet⟩,
      { e with now := first, due := rest, sent := [], hangUpTold := false }) := by
  have hfirst : e.now ≤ first :=
    h.inOrder.le ⟨first, ⟨[bytes], .quiet⟩⟩ (by simp [dues, hpieces])
  have hmax : max e.now first = first := max_eq_right hfirst
  have hbytes : bytes ≠ [] := h.nonempty (first, bytes) (by simp [hpieces])
  cases rest <;>
    simp [hpieces, passUntil, hdue, hmax, send, h.talking, hbytes, hasNews, handOver, h.unsaid]

/-- The link to an engine keeps time, and brings just what the engine has due. -/
theorem punctual_link : Engine.link.Punctual fun ds e => e.Brings ds where
  inOrder := by
    rintro _ e ⟨hready, rfl⟩
    have horder := hready.inOrder
    rwa [now_work] at horder
  quiet := by
    rintro _ e moment ⟨hready, rfl⟩ hmoment hdue
    have hpass := passUntil_of_quiet hready ((now_work e).trans_le hmoment) hdue
    have horder : InOrder moment e.work.dues := by
      rcases hready.inOrder.due_or moment with ⟨d, later, heq, hle⟩ | ⟨-, horder⟩
      · exact absurd (hdue d (by simp [heq])) (Nat.not_lt_of_le hle)
      · exact horder.mono (Nat.le_succ moment)
    have hready' : Ready { e.work with now := moment, hangUpTold := false } :=
      ⟨hready.heardOut, hready.unsaid, hready.talking, horder, hready.nonempty⟩
    exact ⟨_, hpass, rfl, hready'.brings⟩
  delivers := by
    rintro d ds e moment ⟨hready, hdues⟩ hdue
    obtain ⟨⟨first, bytes⟩, rest, hpieces, rfl, rfl⟩ := List.map_eq_cons_iff.1 hdues
    have hpass := passUntil_of_due hready hpieces hdue
    have horder := hready.inOrder
    rw [hdues] at horder
    have hready' : Ready { e.work with
        now := first, due := rest, sent := [], hangUpTold := false } :=
      ⟨hready.heardOut, rfl, hready.talking, horder.2.mono (Nat.le_succ first),
        fun piece hmem => hready.nonempty piece (hpieces ▸ List.mem_cons_of_mem _ hmem)⟩
    exact ⟨_, hpass, rfl, fun _ => hready'.brings⟩

end QueryClient.Engine

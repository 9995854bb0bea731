import QueryClient.Proofs.Wire.Inflow

/-!
# What is left of a flow

Reading starves only where a flow falls quiet. So taking all messages that have arrived ends at a
fault or at the beginning of a message that has not come in whole, and to look again before anything
more has come in gives nothing.
-/

namespace QueryClient.Inflow

variable {flow rest : Inflow} {n max used used' : Nat} {before : List Bytes}

/-! ## Starving -/

theorem quiet_of_take (h : flow.take n = (.error .starved, rest)) : flow.ending = .quiet := by
  unfold take at h
  split at h
  · cases h
  · cases hending : flow.ending with
    | quiet => rfl
    | closed => simp [hending] at h
    | broken text => simp [hending] at h

theorem quiet_of_contentPieces
    (h : contentPieces max used before flow = (.error .starved, used', rest)) :
    flow.ending = .quiet := by
  fun_induction contentPieces max used before flow with
  | case1 used before flow stop after hheader =>
    cases h
    exact quiet_of_take hheader
  | case2 | case3 => cases h
  | case4 used before flow word after hheader hpos hcheck stop later hpiece =>
    cases h
    exact (take_eq_ok hheader).2.2 ▸ quiet_of_take hpiece
  | case5 used before flow word after hheader hpos hcheck piece later hpiece ih =>
    exact (take_eq_ok hheader).2.2 ▸ (take_eq_ok hpiece).2.2 ▸ ih h

theorem quiet_of_contents (h : contents max n used before flow = (.error .starved, rest)) :
    flow.ending = .quiet := by
  induction n generalizing used before flow with
  | zero => cases h
  | succ n ih =>
    rw [contents] at h
    split at h
    · next hcontent =>
      cases h
      exact quiet_of_contentPieces hcontent
    · next hcontent => exact (contentPieces_eq_ok hcontent 0).1 ▸ ih h

variable {allowed : AllowList} {m : Message}

/-- Only a flow that falls quiet breaks off without a fault. -/
theorem quiet_of_message (h : message allowed max flow = (.error .starved, rest)) :
    flow.ending = .quiet := by
  unfold message at h
  split at h
  · next hword =>
    cases h
    exact quiet_of_take hword
  next word flow₁ hword =>
  have hending := (take_eq_ok hword).2.2
  split at h
  · cases h
  split at h
  · next hcontent =>
    cases h
    exact hending ▸ quiet_of_take hcontent
  next content flow₂ hcontent =>
  have hending' := (take_eq_ok hcontent).2.2
  split at h
  · cases h
  split at h
  · next hbound =>
    cases h
    exact hending ▸ hending' ▸ quiet_of_contents hbound
  · cases h

/-! ## Taking everything -/

/-- Every message takes up bytes. -/
theorem size_lt_of_message (h : message allowed max flow = (.ok m, rest)) :
    rest.size < flow.size := by
  obtain ⟨content, body, kinds, taken, contents, hbytes, -⟩ :=
    Frame.first_eq_ok_iff.mp (message_eq_ok h).2
  have hlength := congrArg List.length hbytes
  simp only [unread, List.length_append, Bytes.length_ofNat] at hlength
  unfold size
  omega

/-- What is left once all messages have been taken that are there. -/
structure Drained (allowed : AllowList) (max : Nat) (flow : Inflow) : Prop where
  quiet : flow.ending = .quiet
  starved : (message allowed max flow).1 = .error .starved

/-- Taking more messages than there can be ends at a fault, or it drains a flow that has fallen
quiet. -/
theorem drained_of_arrivalsUpTo (hn : flow.size < n) :
    (∃ fault, .error fault ∈ (arrivalsUpTo allowed max n flow).1) ∨
      flow.ending = .quiet ∧ Drained allowed max (arrivalsUpTo allowed max n flow).2 := by
  induction n generalizing flow with
  | zero => exact absurd hn (Nat.not_lt_zero _)
  | succ n ih =>
    rw [arrivalsUpTo]
    split
    · next m rest hmessage =>
      have hlt : rest.size < n :=
        (size_lt_of_message hmessage).trans_le (Nat.le_of_lt_succ hn)
      rcases ih hlt with ⟨fault, hmem⟩ | ⟨hquiet, hdrained⟩
      · exact .inl ⟨fault, List.mem_cons_of_mem _ hmem⟩
      · exact .inr ⟨(message_eq_ok hmessage).1 ▸ hquiet, hdrained⟩
    · next fault rest hmessage => exact .inl ⟨fault, List.mem_singleton_self _⟩
    · next rest hmessage =>
      have hquiet := quiet_of_message hmessage
      exact .inr ⟨hquiet, hquiet, congrArg Prod.fst hmessage⟩

/-- All that has arrived ends at a fault, or it leaves a flow that is drained for now. -/
theorem drained_of_arrivals (allowed : AllowList) (max : Nat) (flow : Inflow) :
    (∃ fault, .error fault ∈ (flow.arrivals allowed max).1) ∨
      flow.ending = .quiet ∧ Drained allowed max (flow.arrivals allowed max).2 :=
  drained_of_arrivalsUpTo (Nat.lt_succ_self _)

/-- Nothing arrives twice. -/
theorem Drained.arrivals (h : Drained allowed max flow) :
    flow.arrivals allowed max = ([], flow) := by
  have hstarved := h.starved
  rw [Inflow.arrivals, arrivalsUpTo]
  rcases hmessage : message allowed max flow with ⟨stop | m, rest⟩
  · rw [hmessage] at hstarved
    cases hstarved
    rfl
  · rw [hmessage] at hstarved
    cases hstarved

/-- A flow is drained of which not even the length of a frame has come in. -/
theorem drained_of_size_lt (hquiet : flow.ending = .quiet) (h : flow.size < 4) :
    Drained allowed max flow := by
  have htake : flow.take 4 = (.error .starved, ⟨[], .quiet⟩) := by
    rcases hpieces : takePieces 4 flow.pieces with _ | ⟨bytes, rest⟩
    · rw [take, hpieces, hquiet]
    · have hlength := length_takePieces hpieces
      unfold size at h
      omega
  exact ⟨hquiet, by rw [message, htake]⟩

end QueryClient.Inflow

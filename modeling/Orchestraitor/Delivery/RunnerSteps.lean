import Orchestraitor.Delivery.RunnerConsume

/-!
# Elementary steps of the runner

Every call is a sequence of elementary steps on whole states, so that an invariant needs one case
per step.

* `Step`          record an outcome, shed due tasks, start a task, halt, pause, resume;
* `Shape`         the invariant the decomposition of a tick needs: caps, eligibility, disjointness.
-/

namespace Delivery
open Base Std Relation OrdSet
namespace BacklogRunner

/-! ## elementary steps -/

/-- the stops no outcome causes, with the event that precedes them -/
inductive Halts (r : BacklogRunner) : List RunnerEvent → StopReason → Prop
  | paused (h : r.paused = true) : Halts r [] .paused
  | budget (h : r.budgetRemaining = 0) : Halts r [.budgetExhausted] .budgetExhausted
  | empty (h : r.completed.size = r.dag.len) : Halts r [] .backlogEmpty
  | noEligible (hc : r.completed.size ≠ r.dag.len)
      (he : ∀ t ∈ r.dag.eligible r.completed, t ∈ r.blocked) : Halts r [] .noEligibleTasks

theorem Halts.control {r : BacklogRunner} {notes : List RunnerEvent} {reason : StopReason}
    (h : Halts r notes reason) {e : RunnerEvent} (he : e ∈ notes ++ [.stopped reason]) :
    e = .paused ∨ e = .resumed ∨ e = .budgetExhausted ∨ ∃ x, e = .stopped x := by
  rcases List.mem_append.mp he with e' | e'
  · cases h with
    | budget => exact .inr (.inr (.inl (List.mem_singleton.mp e')))
    | _ => exact absurd e' List.not_mem_nil
  · exact .inr (.inr (.inr ⟨reason, List.mem_singleton.mp e'⟩))

/-- what an iteration of a tick can do -/
inductive Step : BacklogRunner → BacklogRunner → Prop
  | record {r r' : BacklogRunner} (t : BacklogTaskId) (o : AttemptOutcome)
      (hs : r.stopReason = none) (hp : r.paused = false) (ht : t ∈ r.running)
      (hc : Consumed r t o r') : Step r r'
  | shed {r : BacklogRunner} (pending : OrdSet BacklogTaskId) (hs : r.stopReason = none)
      (hsub : ∀ t ∈ pending, t ∈ r.pending) : Step r { r with pending := pending }
  | start {r : BacklogRunner} (t : BacklogTaskId) (hs : r.stopReason = none)
      (hp : r.paused = false) (he : t ∈ r.dag.eligible r.completed) (hr : t ∉ r.running)
      (hq : t ∉ r.pending) (hb : 0 < r.budgetRemaining)
      (hc : Caps r.scheduler.config r.dag (r.running.insert t).toList) : Step r (r.start t)
  | halt {r : BacklogRunner} (notes : List RunnerEvent) (reason : StopReason)
      (hs : r.stopReason = none) (hh : Halts r notes reason) : Step r { r with
      journal := r.journal ++ (notes ++ [.stopped reason])
      stopReason := some reason }
  | pause {r : BacklogRunner} (hp : r.paused = false) : Step r { r with
      journal := r.journal ++ [.paused]
      paused := true }
  | resume {r : BacklogRunner} (hp : r.paused = true) : Step r { r with
      journal := r.journal ++ [.resumed]
      paused := false
      stopReason := if r.stopReason = some .paused then none else r.stopReason }

/-! ## the shape of every reachable state -/

/-- what holds of the runner between two steps -/
structure Shape (input : RunnerInput) (r : BacklogRunner) : Prop where
  dag_eq : r.dag = input.dag
  scheduler_eq : r.scheduler.config = input.schedulerConfig
  reprompt_eq : r.maxRepromptAttempts = input.maxRepromptAttempts
  perStep_eq : r.maxAttemptsPerStep = input.maxAttemptsPerStep
  ladder : ∀ t ∈ r.dag.tasks, ∃ e, r.escalation[t]? = some e
  policy : ∀ (t : BacklogTaskId) (e : EscalationState), r.escalation[t]? = some e →
    e.policy = input.escalationPolicy
  completed_known : ∀ t ∈ r.completed, t ∈ r.dag.tasks
  running_eligible : ∀ t ∈ r.running, t ∈ r.dag.eligible r.completed
  pending_eligible : ∀ t ∈ r.pending, t ∈ r.dag.eligible r.completed
  running_pending : ∀ t ∈ r.running, t ∉ r.pending
  /-- a blocked task stopped the run for good, with the stop paired to its reason -/
  blocked_stop : ∀ (t : BacklogTaskId) (reason : BlockReason), r.blocked[t]? = some reason →
    r.stopReason = some reason.stop ∧ t ∈ r.dag.eligible r.completed ∧ t ∉ r.running ∧ t ∉ r.pending
  caps : Caps r.scheduler.config r.dag r.running.toList

section
variable {input : RunnerInput} {r r' : BacklogRunner} {t : BacklogTaskId}

theorem Shape.not_blocked (h : Shape input r) (hs : r.stopReason = none) (t : BacklogTaskId) :
    t ∉ r.blocked := by
  intro hb
  obtain ⟨reason, hr⟩ := (OrdMap.mem_iff_get _ _).mp hb
  rw [(h.blocked_stop t reason hr).1] at hs
  exact absurd hs (by simp)

theorem Shape.ladder_running (h : Shape input r) (ht : t ∈ r.running) :
    ∃ e, r.escalation[t]? = some e :=
  h.ladder t (r.dag.mem_eligible.mp (h.running_eligible t ht)).1

theorem Shape.caps_erase (h : Shape input r) (t : BacklogTaskId) :
    Caps r.scheduler.config r.dag (r.running.erase t).toList :=
  h.caps.of_subperm (toList_subperm (fun _ ha => ((mem_erase_iff _ _ _).mp ha).2))

variable {ladders : OrdMap BacklogTaskId EscalationState}

theorem LadderMove.ladder (hl : r.LadderMove t ladders) (h : Shape input r) :
    ∀ a ∈ r.dag.tasks, ∃ e, ladders[a]? = some e := by
  intro a ha
  rcases hl with rfl | ⟨_, e', _, _, rfl⟩
  · exact h.ladder a ha
  · rw [OrdMap.get_insert]
    split_ifs
    · exact ⟨e', rfl⟩
    · exact h.ladder a ha

theorem LadderMove.policy (hl : r.LadderMove t ladders) (h : Shape input r) (a : BacklogTaskId)
    (x : EscalationState) (hx : ladders[a]? = some x) : x.policy = input.escalationPolicy := by
  rcases hl with rfl | ⟨e0, e', he0, hpol, rfl⟩
  · exact h.policy a x hx
  · rw [OrdMap.get_insert] at hx
    split_ifs at hx
    · rw [← Option.some.inj hx, hpol]; exact h.policy t e0 he0
    · exact h.policy a x hx

theorem eligible_insert {dag : TaskDag} {completed : OrdSet BacklogTaskId} {a : BacklogTaskId}
    (ha : a ∈ dag.eligible completed) (hne : a ≠ t) : a ∈ dag.eligible (completed.insert t) := by
  obtain ⟨h1, h2, h3⟩ := dag.mem_eligible.mp ha
  refine dag.mem_eligible.mpr ⟨h1, ?_, fun d hd => ?_⟩
  · rw [mem_insert_iff]; simp [hne, h2]
  · rw [mem_insert_iff]; exact .inr (h3 d hd)

theorem Shape.mem_erase {a : BacklogTaskId} (ha : a ∈ r.running.erase t) :
    a ≠ t ∧ a ∈ r.running := (mem_erase_iff _ _ _).mp ha

theorem Shape.get_blocked (h : Shape input r) (hs : r.stopReason = none) (a : BacklogTaskId) :
    r.blocked[a]? = none := (OrdMap.get_none_iff _ _).mpr (h.not_blocked hs a)

theorem Shape.blocked_ne (h : Shape input r) (hs : r.stopReason = none) (a : BacklogTaskId)
    (b : BlockReason) : r.blocked[a]? ≠ some b := by
  rw [h.get_blocked hs a]
  simp

theorem Shape.complete (h : Shape input r) (hs : r.stopReason = none) (ht : t ∈ r.running)
    (journal : List RunnerEvent) (schedules : OrdMap BacklogTaskId RetrySchedule) :
    Shape input { r with
      journal := journal
      running := r.running.erase t
      completed := r.completed.insert t
      retrySchedules := schedules } := by
  refine { h with
    completed_known := ?_, running_eligible := ?_, pending_eligible := ?_
    running_pending := fun a ha => h.running_pending a (Shape.mem_erase ha).2
    blocked_stop := fun a b hb => absurd hb (h.blocked_ne hs a b)
    caps := h.caps_erase t }
  · intro a ha
    rcases (mem_insert_iff _ _ _).mp ha with e | e
    · rw [e]; exact (r.dag.mem_eligible.mp (h.running_eligible t ht)).1
    · exact h.completed_known a e
  · intro a ha
    exact eligible_insert (h.running_eligible a (Shape.mem_erase ha).2) (Shape.mem_erase ha).1
  · intro a ha
    refine eligible_insert (h.pending_eligible a ha) ?_
    rintro rfl
    exact h.running_pending a ht ha

theorem Shape.parked (h : Shape input r) (hs : r.stopReason = none) (ht : t ∈ r.running)
    (hl : r.LadderMove t ladders) (journal : List RunnerEvent) (reason : BlockReason) :
    Shape input { r with
      journal := journal
      running := r.running.erase t
      blocked := r.blocked.insert t reason
      escalation := ladders
      stopReason := some reason.stop } := by
  refine { h with
    ladder := hl.ladder h, policy := hl.policy h
    running_eligible := fun a ha => h.running_eligible a (Shape.mem_erase ha).2
    running_pending := fun a ha => h.running_pending a (Shape.mem_erase ha).2
    blocked_stop := ?_
    caps := h.caps_erase t }
  intro a b hb
  rw [OrdMap.get_insert, h.get_blocked hs a] at hb
  split_ifs at hb with e
  subst e
  rw [Option.some.inj hb]
  exact ⟨rfl, h.running_eligible a ht, fun hm => (Shape.mem_erase hm).1 rfl,
    h.running_pending a ht⟩

theorem Shape.requeued (h : Shape input r) (hs : r.stopReason = none) (ht : t ∈ r.running)
    (hl : r.LadderMove t ladders) (journal : List RunnerEvent)
    (schedules : OrdMap BacklogTaskId RetrySchedule) :
    Shape input { r with
      journal := journal
      running := r.running.erase t
      pending := r.pending.insert t
      escalation := ladders
      retrySchedules := schedules } := by
  refine { h with
    ladder := hl.ladder h, policy := hl.policy h
    running_eligible := fun a ha => h.running_eligible a (Shape.mem_erase ha).2
    pending_eligible := ?_, running_pending := ?_
    blocked_stop := fun a b hb => absurd hb (h.blocked_ne hs a b)
    caps := h.caps_erase t }
  · intro a ha
    rcases (mem_insert_iff _ _ _).mp ha with e | e
    · rw [e]; exact h.running_eligible t ht
    · exact h.pending_eligible a e
  · intro a ha hm
    rcases (mem_insert_iff _ _ _).mp hm with e | e
    · exact (Shape.mem_erase ha).1 e
    · exact h.running_pending a (Shape.mem_erase ha).2 e

theorem Shape.consumed {o : AttemptOutcome} (h : Shape input r) (hs : r.stopReason = none)
    (ht : t ∈ r.running) (hc : Consumed r t o r') : Shape input r' := by
  cases hc with
  | completed => exact h.complete hs ht _ _
  | paused =>
    exact { h with blocked_stop := fun a b hb => absurd hb (h.blocked_ne hs a b) }
  | parked _ reason _ _ hl => exact h.parked hs ht hl _ reason
  | requeued _ _ _ _ e _ _ he =>
    exact h.requeued hs ht (.inr ⟨e, e.recordFailure, he, rfl, rfl⟩) _ _
  | escalated _ _ _ _ e _ _ he =>
    exact h.requeued hs ht (.inr ⟨e, _, he, e.recordFailure.advance_policy, rfl⟩) _ _
  | exhausted _ _ _ _ e _ he =>
    exact h.parked hs ht (.inr ⟨e, _, he, e.recordFailure.advance_policy, rfl⟩) _ .humanEscalation

theorem Shape.start (h : Shape input r) (hs : r.stopReason = none)
    (he : t ∈ r.dag.eligible r.completed) (hq : t ∉ r.pending)
    (hc : Caps r.scheduler.config r.dag (r.running.insert t).toList) :
    Shape input (r.start t) := by
  refine { h with
    running_eligible := ?_, running_pending := ?_
    blocked_stop := fun a b hb => absurd hb (h.blocked_ne hs a b)
    caps := hc }
  · intro a ha
    rcases (mem_insert_iff _ _ _).mp ha with e | e
    · rw [e]; exact he
    · exact h.running_eligible a e
  · intro a ha
    rcases (mem_insert_iff _ _ _).mp ha with e | e
    · rw [e]; exact hq
    · exact h.running_pending a e

theorem Shape.step (h : Shape input r) (hst : Step r r') : Shape input r' := by
  cases hst with
  | record _ _ hs _ ht hc => exact h.consumed hs ht hc
  | shed _ hs hsub =>
    exact { h with
      pending_eligible := fun a ha => h.pending_eligible a (hsub a ha)
      running_pending := fun a ha hm => h.running_pending a ha (hsub a hm)
      blocked_stop := fun a b hb => absurd hb (h.blocked_ne hs a b) }
  | start _ hs _ he _ hq _ hc => exact h.start hs he hq hc
  | halt _ _ hs =>
    exact { h with blocked_stop := fun a b hb => absurd hb (h.blocked_ne hs a b) }
  | pause => exact { h with }
  | resume =>
    -- a parked task's stop is never the pause, so it survives
    refine { h with blocked_stop := fun a b hb => ?_ }
    obtain ⟨h1, h2⟩ := h.blocked_stop a b hb
    refine ⟨?_, h2⟩
    show (if r.stopReason = some .paused then none else r.stopReason) = some b.stop
    rw [h1, if_neg (by simpa using b.stop_ne_paused)]

theorem Shape.steps (h : Shape input r) (hst : ReflTransGen Step r r') : Shape input r' := by
  induction hst with
  | refl => exact h
  | tail _ hs ih => exact ih.step hs

end

end BacklogRunner
end Delivery

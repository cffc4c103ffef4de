import Orchestraitor.Delivery.RunnerJournal

/-!
# The escalation ladder bounds every task's failures

Three counters interact: failures at the current rung, which retries, holds and root-cause fixes
check against `maxAttemptsPerStep`; the attempt number, which reprompts check against
`maxRepromptAttempts`; and the rung itself.  `OnLadder` ties them to the journal of a task that is
not parked: below the current rung every rung has cost at most `perRung` failures that were not
reprompts, and at the current rung fewer than that so far.
-/

namespace Delivery
open Base Std List

/-! ## tallies of one task -/

variable (t : BacklogTaskId)

def RunnerEvent.fails : RunnerEvent → Bool
  | .attemptRecorded task _ (.failed _ _ _) => task == t
  | _ => false

def RunnerEvent.reprompts : RunnerEvent → Bool
  | .reprompt task _ => task == t
  | _ => false

def RunnerEvent.rung : RunnerEvent → Option EscalationStep
  | .escalationStep task step => if task = t then some step else none
  | _ => none

def failedOf (journal : List RunnerEvent) : Nat :=
  journal.countP (RunnerEvent.fails t)

def repromptsOf (journal : List RunnerEvent) : Nat :=
  journal.countP (RunnerEvent.reprompts t)

def rungsOf (journal : List RunnerEvent) : List EscalationStep :=
  journal.filterMap (RunnerEvent.rung t)

def RunnerEvent.offLadder : RunnerEvent → Bool
  | .started _ | .paused | .resumed | .budgetExhausted | .stopped _ => true
  | _ => false

theorem tallies_append_off {es : List RunnerEvent} (h : ∀ e ∈ es, e.offLadder = true)
    (t : BacklogTaskId) (journal : List RunnerEvent) :
    failedOf t (journal ++ es) = failedOf t journal ∧
      repromptsOf t (journal ++ es) = repromptsOf t journal ∧
      closedOf t (journal ++ es) = closedOf t journal ∧
      rungsOf t (journal ++ es) = rungsOf t journal := by
  have key : ∀ e ∈ es, e.fails t = false ∧ e.reprompts t = false ∧ e.closes t = false ∧
      e.rung t = none := by
    intro e he
    have hoff := h e he
    cases e <;> first
      | exact ⟨rfl, rfl, rfl, rfl⟩
      | exact absurd hoff (by simp [RunnerEvent.offLadder])
  refine ⟨countP_append_eq (fun e he => (key e he).1),
    countP_append_eq (fun e he => (key e he).2.1),
    countP_append_eq (fun e he => (key e he).2.2.1), ?_⟩
  rw [rungsOf, filterMap_append,
    filterMap_eq_nil_iff.mpr (fun e he => (key e he).2.2.2), append_nil]
  rfl

namespace BacklogRunner

/-! ## the invariant -/

def perRung (input : RunnerInput) : Nat := max 1 input.maxAttemptsPerStep

def rungs (input : RunnerInput) : Nat := max 1 (input.escalationPolicy.steps.length - 1)

/-- a task that is not parked, against its ladder `e` -/
structure OnLadder (input : RunnerInput) (journal : List RunnerEvent) (t : BacklogTaskId)
    (e : EscalationState) : Prop where
  level : e.level + 1 ≤ rungs input
  count : ∃ k, k ≤ e.attemptsAtCurrentStep ∧ k < perRung input ∧
    failedOf t journal ≤ e.level * perRung input + k + repromptsOf t journal
  climbed : ∀ s ∈ rungsOf t journal, s ≤ e.currentStep

/-- how far the failures of each task have climbed its ladder -/
structure Climb (input : RunnerInput) (r : BacklogRunner) : Prop where
  bound : ∀ t, failedOf t r.journal ≤ rungs input * perRung input + repromptsOf t r.journal
  reprompts : ∀ t, repromptsOf t r.journal ≤ closedOf t r.journal ∧
    repromptsOf t r.journal ≤ input.maxRepromptAttempts - 1
  steps : ∀ t, (rungsOf t r.journal).Pairwise (· < ·) ∧
    ∀ s ∈ rungsOf t r.journal, s ∈ input.escalationPolicy.steps ∧ s ≠ .humanEscalation
  onLadder : ∀ (t : BacklogTaskId) (e : EscalationState), t ∉ r.blocked →
    r.escalation[t]? = some e → OnLadder input r.journal t e
  human : ∀ t : BacklogTaskId, .humanEscalation t ∈ r.journal →
    r.blocked[t]? = some .humanEscalation

section
variable {input : RunnerInput} {r r' : BacklogRunner} {t : BacklogTaskId}
  {journal : List RunnerEvent} {e : EscalationState}

theorem perRung_pos : 0 < perRung input := by
  rw [perRung]
  omega

theorem OnLadder.bound_succ (h : OnLadder input journal t e) :
    failedOf t journal + 1 ≤ (e.level + 1) * perRung input + repromptsOf t journal := by
  obtain ⟨k, _, hk, hle⟩ := h.count
  rw [Nat.succ_mul]
  omega

theorem OnLadder.bound_total (h : OnLadder input journal t e) :
    failedOf t journal + 1 ≤ rungs input * perRung input + repromptsOf t journal := by
  have h1 := h.bound_succ
  have h2 := Nat.mul_le_mul_right (perRung input) h.level
  omega

theorem Climb.extend (h : Climb input r) (es : List RunnerEvent)
    (hes : ∀ e ∈ es, e.offLadder = true) (hj : r'.journal = r.journal ++ es)
    (hl : r'.escalation = r.escalation) (hb : r'.blocked = r.blocked) : Climb input r' := by
  have h1 := fun t => (tallies_append_off hes t r.journal).1
  have h2 := fun t => (tallies_append_off hes t r.journal).2.1
  have h3 := fun t => (tallies_append_off hes t r.journal).2.2.1
  have h4 := fun t => (tallies_append_off hes t r.journal).2.2.2
  refine ⟨fun t => ?_, fun t => ?_, fun t => ?_, fun t e hbt het => ?_, fun t hm => ?_⟩
  · rw [hj, h1, h2]; exact h.bound t
  · rw [hj, h2, h3]; exact h.reprompts t
  · rw [hj, h4]; exact h.steps t
  · rw [hb] at hbt
    rw [hl] at het
    obtain ⟨ha, hc, hcl⟩ := h.onLadder t e hbt het
    rw [← h1, ← h2] at hc
    rw [← h4] at hcl
    rw [hj]
    exact ⟨ha, hc, hcl⟩
  · rw [hj] at hm
    rw [hb]
    rcases mem_append.mp hm with e | e
    · exact h.human t e
    · exact absurd (hes _ e) (by simp [RunnerEvent.offLadder])

/-! ## one recorded outcome -/

variable {o : AttemptOutcome} {cls : FailureClass} {proof : Option IdempotencyProof}

theorem Consumed.failedOf_eq (hc : Consumed r t o r') (a : BacklogTaskId) :
    failedOf a r'.journal = failedOf a r.journal +
      if (RunnerEvent.attemptRecorded t (r.attemptOf t) o).fails a then 1 else 0 := by
  obtain ⟨notes, hj, hn⟩ := hc.notes
  have hnotes : ∀ e ∈ notes, e.fails a = false := by
    intro e he
    have := hn e he
    cases e <;> first | rfl | exact absurd this (by simp [RunnerEvent.isNote])
  rw [hj, append_cons, failedOf, countP_append_eq hnotes, countP_append,
    countP_singleton]
  rfl

theorem Consumed.other (hc : Consumed r t o r') {a : BacklogTaskId} (ha : a ≠ t) :
    repromptsOf a r'.journal = repromptsOf a r.journal ∧
      rungsOf a r'.journal = rungsOf a r.journal ∧
      (.humanEscalation a ∈ r'.journal → .humanEscalation a ∈ r.journal) ∧
      r'.escalation[a]? = r.escalation[a]? := by
  have ha' : ¬ t = a := fun x => ha x.symm
  cases hc with
  | completed | paused => simp [repromptsOf, rungsOf, RunnerEvent.reprompts, RunnerEvent.rung]
  | parked _ _ ladders _ hl =>
    have hlad : ladders[a]? = r.escalation[a]? := by
      rcases hl with rfl | ⟨_, _, _, _, rfl⟩
      · rfl
      · rw [OrdMap.get_insert, if_neg ha]
    simp [repromptsOf, rungsOf, RunnerEvent.reprompts, RunnerEvent.rung, hlad]
  | requeued _ _ _ _ _ _ _ _ hq =>
    cases hq <;> simp [repromptsOf, rungsOf, RunnerEvent.reprompts, RunnerEvent.rung, ha, ha']
  | escalated _ _ _ _ _ _ _ _ hf =>
    rcases hf with rfl | rfl <;>
      simp [repromptsOf, rungsOf, RunnerEvent.reprompts, RunnerEvent.rung, ha, ha']
  | exhausted _ _ _ _ _ _ _ hf =>
    rcases hf with rfl | rfl <;>
      simp [repromptsOf, rungsOf, RunnerEvent.reprompts, RunnerEvent.rung, ha]

theorem Climb.of_self (hsh : Shape input r) (h : Climb input r) (hs : r.stopReason = none)
    (hc : Consumed r t o r')
    (hbound : failedOf t r'.journal ≤ rungs input * perRung input + repromptsOf t r'.journal) (hrep
      : repromptsOf t r'.journal ≤ closedOf t r'.journal ∧ repromptsOf t r'.journal ≤
      input.maxRepromptAttempts - 1) (hsteps : (rungsOf t r'.journal).Pairwise (· < ·) ∧ ∀ s ∈
      rungsOf t r'.journal, s ∈ input.escalationPolicy.steps ∧ s ≠ .humanEscalation)
    (hladder : ∀ e, t ∉ r'.blocked → r'.escalation[t]? = some e → OnLadder input r'.journal t e)
    (hhuman : .humanEscalation t ∈ r'.journal → r'.blocked[t]? = some .humanEscalation) :
    Climb input r' := by
  have hfail : ∀ a, a ≠ t → failedOf a r'.journal = failedOf a r.journal := by
    intro a ha
    have ha' : ¬ t = a := fun x => ha x.symm
    rw [hc.failedOf_eq]
    cases o <;> simp [RunnerEvent.fails, ha']
  have hclosed : ∀ a, a ≠ t → closedOf a r'.journal = closedOf a r.journal := by
    intro a ha
    rw [hc.closedOf_eq]
    simp [ha]
  refine ⟨fun a => ?_, fun a => ?_, fun a => ?_, fun a e hb he => ?_, fun a hm => ?_⟩ <;>
    by_cases ha : a = t
  · rw [ha]; exact hbound
  · rw [hfail a ha, (hc.other ha).1]; exact h.bound a
  · rw [ha]; exact hrep
  · rw [hclosed a ha, (hc.other ha).1]; exact h.reprompts a
  · rw [ha]; exact hsteps
  · rw [(hc.other ha).2.1]; exact h.steps a
  · subst ha; exact hladder e hb he
  · rw [(hc.other ha).2.2.2] at he
    obtain ⟨h1, h2, h3⟩ := h.onLadder a e (hsh.not_blocked hs a) he
    rw [← hfail a ha, ← (hc.other ha).1] at h2
    rw [← (hc.other ha).2.1] at h3
    exact ⟨h1, h2, h3⟩
  · subst ha; exact hhuman hm
  · have := h.human a ((hc.other ha).2.2.1 hm)
    exact absurd this (hsh.blocked_ne hs a _)

/-- outcomes that leave the ladder and its events alone: completion, pause, parking -/
theorem Climb.record_quiet (hsh : Shape input r) (h : Climb input r) (hs : r.stopReason = none)
    (ht : t ∈ r.running) (hc : Consumed r t o r')
    (hrep : repromptsOf t r'.journal = repromptsOf t r.journal)
    (hrungs : rungsOf t r'.journal = rungsOf t r.journal) (hhuman : .humanEscalation t ∉ r'.journal)
    (hfate : t ∈ r'.blocked ∨ (r'.escalation = r.escalation ∧ ∀ cls ra proof, o ≠ .failed cls ra
      proof)) : Climb input r' := by
  obtain ⟨e, he⟩ := hsh.ladder_running ht
  have hl := h.onLadder t e (hsh.not_blocked hs t) he
  have hfail := hc.failedOf_eq t
  refine h.of_self hsh hs hc ?_ ?_ (by rw [hrungs]; exact h.steps t) ?_
    (fun hm => absurd hm hhuman)
  · have := hl.bound_total
    rw [hfail]
    split_ifs <;> omega
  · have h1 := h.reprompts t
    have h2 := hc.closedOf_eq t
    omega
  · intro _ hb he'
    rcases hfate with hbl | ⟨hesc, hno⟩
    · exact absurd hbl hb
    · rw [hesc, he] at he'
      cases he'
      have hsame : failedOf t r'.journal = failedOf t r.journal := by
        rw [hfail]
        cases o with
        | failed cls ra proof => exact absurd rfl (hno cls ra proof)
        | _ => rfl
      refine ⟨hl.level, ?_, by rw [hrungs]; exact hl.climbed⟩
      rw [hsame, hrep]
      exact hl.count

theorem OnLadder.recordFailure {journal' : List RunnerEvent} (h : OnLadder input journal t e)
    (hfail : failedOf t journal' = failedOf t journal + 1)
    (hrungs : rungsOf t journal' = rungsOf t journal)
    (hkeep : (repromptsOf t journal' = repromptsOf t journal ∧
        e.recordFailure.attemptsAtCurrentStep < input.maxAttemptsPerStep) ∨
      repromptsOf t journal' = repromptsOf t journal + 1) :
    OnLadder input journal' t e.recordFailure := by
  obtain ⟨k, hk1, hk2, hle⟩ := h.count
  have hlev : e.recordFailure.level = e.level := rfl
  have hatt : e.recordFailure.attemptsAtCurrentStep = satAdd32 e.attemptsAtCurrentStep 1 := rfl
  have hmax := input.maxAttemptsPerStep_le
  have hu : 1 ≤ u32Max := by decide
  rw [satAdd32] at hatt
  generalize u32Max = top at hatt hmax hu
  rw [perRung] at hk2 hle
  refine ⟨hlev ▸ h.level, ?_, by rw [hrungs]; exact h.climbed⟩
  rw [hlev, perRung]
  rcases hkeep with ⟨hr, hlt⟩ | hr
  · -- below the per-rung budget the counter has not saturated
    refine ⟨k + 1, by omega, by omega, ?_⟩
    rw [hr]; omega
  · refine ⟨k, by omega, hk2, ?_⟩
    rw [hr]; omega

theorem OnLadder.advance {journal' : List RunnerEvent} (h : OnLadder input journal t e)
    (hpol : e.policy = input.escalationPolicy)
    (hx : e.recordFailure.advance.2.exhausted = false)
    (hfail : failedOf t journal' = failedOf t journal + 1)
    (hrep : repromptsOf t journal' = repromptsOf t journal)
    (hrungs : rungsOf t journal'
      = rungsOf t journal ++ [e.recordFailure.advance.2.currentStep]) :
    OnLadder input journal' t e.recordFailure.advance.2 ∧
      e.currentStep < e.recordFailure.advance.2.currentStep := by
  have hne : e.recordFailure.exhausted = false := by
    by_contra hc
    rw [e.recordFailure.advance_exhausted (by simpa using hc)] at hx
    exact hc hx
  obtain ⟨step, _, hstep, hlt, hp, hlev, hatt⟩ := e.recordFailure.advance_level hne
  have hlevel : e.recordFailure.advance.2.level = e.level + 1 := hlev
  have hcur : e.currentStep < e.recordFailure.advance.2.currentStep := by rw [hstep]; exact hlt
  refine ⟨⟨?_, ⟨0, by omega, perRung_pos, ?_⟩, ?_⟩, hcur⟩
  · have h1 := e.recordFailure.advance.2.level_lt
    have h2 := mt e.recordFailure.advance.2.exhausted_iff.mpr (by simp [hx])
    have hlen : e.recordFailure.advance.2.policy.steps.length
        = input.escalationPolicy.steps.length := by
      rw [hp]
      exact congrArg (fun p => p.steps.length) hpol
    rw [rungs]
    omega
  · have := h.bound_succ
    rw [hlevel]
    omega
  · intro s hs
    rw [hrungs] at hs
    rcases mem_append.mp hs with e' | e'
    · exact ((h.climbed s e').trans_lt hcur).le
    · rw [mem_singleton.mp e']

theorem Requeues.keeps {n k : Nat} {event : RunnerEvent} (hsh : Shape input r)
    (hq : Requeues r t cls proof n event) :
    (repromptsOf t (r.journal ++ [.attemptRecorded t k o, event]) = repromptsOf t r.journal ∧
        n < input.maxAttemptsPerStep) ∨
      (repromptsOf t (r.journal ++ [.attemptRecorded t k o, event])
          = repromptsOf t r.journal + 1 ∧ r.attemptOf t < input.maxRepromptAttempts) := by
  rw [← hsh.perStep_eq, ← hsh.reprompt_eq]
  cases hq with
  | retry d _ hlt => exact .inl ⟨by simp [repromptsOf, RunnerEvent.reprompts], hlt⟩
  | hold _ _ hlt => exact .inl ⟨by simp [repromptsOf, RunnerEvent.reprompts], hlt⟩
  | fix hlt => exact .inl ⟨by simp [repromptsOf, RunnerEvent.reprompts], hlt⟩
  | reprompt a hlt => exact .inr ⟨by simp [repromptsOf, RunnerEvent.reprompts], hlt⟩

theorem Climb.record_requeued {ra : Option Nat} {event : RunnerEvent}
    {schedules : OrdMap BacklogTaskId RetrySchedule} (hsh : Shape input r) (hrp : Replays input r)
    (h : Climb input r) (hs : r.stopReason = none) (ht : t ∈ r.running)
    (ho : (AttemptOutcome.failed cls ra proof).parks = none) (he : r.escalation[t]? = some e)
    (hq : Requeues r t cls proof e.recordFailure.attemptsAtCurrentStep event) :
    Climb input { r with
      journal := r.journal ++
        [.attemptRecorded t (r.attemptOf t) (.failed cls ra proof), event]
      running := r.running.erase t
      pending := r.pending.insert t
      escalation := r.escalation.insert t e.recordFailure
      retrySchedules := schedules } := by
  have hc := Consumed.requeued cls ra proof event e schedules ho he hq
  have hlad := h.onLadder t e (hsh.not_blocked hs t) he
  have hfail := hc.failedOf_eq t
  have hclosed := hc.closedOf_eq t
  simp only [RunnerEvent.fails, beq_self_eq_true, ↓reduceIte] at hfail
  simp only [true_and, ne_eq, reduceCtorEq, not_false_eq_true, ↓reduceIte] at hclosed
  have hkeep := hq.keeps hsh (k := r.attemptOf t) (o := .failed cls ra proof)
  have hrungs : rungsOf t (r.journal ++
      [.attemptRecorded t (r.attemptOf t) (.failed cls ra proof), event])
        = rungsOf t r.journal := by
    cases hq <;> simp [rungsOf, RunnerEvent.rung]
  have hnoh : .humanEscalation t ∉ r.journal ++
      [.attemptRecorded t (r.attemptOf t) (.failed cls ra proof), event] := by
    have := fun hm => hsh.blocked_ne hs t _ (h.human t hm)
    cases hq <;> simpa using this
  refine h.of_self hsh hs hc ?_ ?_ (by rw [hrungs]; exact h.steps t) ?_
    (fun hm => absurd hm hnoh)
  · have := hlad.bound_total
    rcases hkeep with ⟨hr, _⟩ | ⟨hr, _⟩ <;> rw [hfail, hr] <;> omega
  · obtain ⟨h1, h2⟩ := h.reprompts t
    obtain ⟨h3, h4⟩ := hrp.attemptOf ht
    rcases hkeep with ⟨hr, _⟩ | ⟨hr, hlt⟩ <;> rw [hclosed, hr] <;> omega
  · intro _ _ he'
    rw [OrdMap.get_insert, if_pos rfl] at he'
    rw [← Option.some.inj he']
    exact hlad.recordFailure hfail hrungs (hkeep.imp_right (fun x => x.1))

theorem Climb.steps_concat (h : Climb input r) (hlad : OnLadder input r.journal t e)
    (hpol : e.policy = input.escalationPolicy)
    (hx : e.recordFailure.advance.2.exhausted = false)
    (hlt : e.currentStep < e.recordFailure.advance.2.currentStep) :
    (rungsOf t r.journal ++ [e.recordFailure.advance.2.currentStep]).Pairwise (· < ·) ∧
      ∀ s ∈ rungsOf t r.journal ++ [e.recordFailure.advance.2.currentStep],
        s ∈ input.escalationPolicy.steps ∧ s ≠ .humanEscalation := by
  obtain ⟨h1, h2⟩ := h.steps t
  constructor
  · rw [pairwise_append]
    refine ⟨h1, pairwise_singleton _ _, fun a ha b hb => ?_⟩
    rw [mem_singleton.mp hb]
    exact (hlad.climbed a ha).trans_lt hlt
  · intro s hsm
    rcases mem_append.mp hsm with e' | e'
    · exact h2 s e'
    · rw [mem_singleton.mp e']
      have hon := e.recordFailure.advance.2.onLadder
      rw [e.recordFailure.advance_policy] at hon
      refine ⟨hpol ▸ hon, fun hhuman => ?_⟩
      rw [EscalationState.exhausted, hhuman] at hx
      exact absurd hx (by decide)

theorem Climb.record_escalated {ra : Option Nat} (hsh : Shape input r) (h : Climb input r)
    (hs : r.stopReason = none) (he : r.escalation[t]? = some e)
    (hc : Consumed r t (.failed cls ra proof) r')
    (hesc : r'.escalation[t]? = some e.recordFailure.advance.2)
    (hrep : repromptsOf t r'.journal = repromptsOf t r.journal) (hend :
      (e.recordFailure.advance.2.exhausted = false ∧ .humanEscalation t ∉ r'.journal ∧ rungsOf t
      r'.journal = rungsOf t r.journal ++ [e.recordFailure.advance.2.currentStep]) ∨ (r'.blocked[t]?
      = some .humanEscalation ∧ rungsOf t r'.journal = rungsOf t r.journal)) :
    Climb input r' := by
  have hlad := h.onLadder t e (hsh.not_blocked hs t) he
  have hpol := hsh.policy t e he
  have hfail := hc.failedOf_eq t
  have hclosed := hc.closedOf_eq t
  simp only [RunnerEvent.fails, beq_self_eq_true] at hfail
  have hbound : failedOf t r'.journal ≤ rungs input * perRung input + repromptsOf t r'.journal := by
    rw [hfail, hrep]; exact hlad.bound_total
  have hreps : repromptsOf t r'.journal ≤ closedOf t r'.journal ∧
      repromptsOf t r'.journal ≤ input.maxRepromptAttempts - 1 := by
    obtain ⟨h1, h2⟩ := h.reprompts t
    omega
  rcases hend with ⟨hx, hnoh, hrungs⟩ | ⟨hblk, hrungs⟩
  · obtain ⟨hnew, hlt⟩ := hlad.advance hpol hx hfail hrep hrungs
    refine h.of_self hsh hs hc hbound hreps ?_ ?_ (fun hm => absurd hm hnoh)
    · rw [hrungs]
      exact h.steps_concat hlad hpol hx hlt
    · intro _ _ he'
      rw [hesc] at he'
      rw [← Option.some.inj he']
      exact hnew
  · refine h.of_self hsh hs hc hbound hreps (by rw [hrungs]; exact h.steps t) ?_ (fun _ => hblk)
    intro _ hb _
    exact absurd ((OrdMap.mem_iff_get _ _).mpr ⟨_, hblk⟩) hb

theorem Climb.record (hsh : Shape input r) (hrp : Replays input r) (h : Climb input r)
    (hs : r.stopReason = none) (ht : t ∈ r.running) (hc : Consumed r t o r') : Climb input r' := by
  have hnoh : .humanEscalation t ∉ r.journal := fun hm =>
    hsh.blocked_ne hs t _ (h.human t hm)
  cases hc with
  | completed =>
    exact h.record_quiet hsh hs ht .completed (by simp [repromptsOf, RunnerEvent.reprompts])
      (by simp [rungsOf, RunnerEvent.rung]) (by simpa using hnoh) (.inr ⟨rfl, by simp⟩)
  | paused =>
    exact h.record_quiet hsh hs ht .paused (by simp [repromptsOf, RunnerEvent.reprompts])
      (by simp [rungsOf, RunnerEvent.rung]) (by simpa using hnoh) (.inr ⟨rfl, by simp⟩)
  | parked _ reason ladders ho hl =>
    exact h.record_quiet hsh hs ht (.parked _ reason ladders ho hl)
      (by simp [repromptsOf, RunnerEvent.reprompts]) (by simp [rungsOf, RunnerEvent.rung])
      (by simpa using hnoh) (.inl (by simp))
  | requeued _ _ _ _ _ _ ho he hq =>
    exact h.record_requeued hsh hrp hs ht ho he hq
  | escalated cls ra proof fix e schedules ho he hf hx =>
    refine h.record_escalated hsh hs he (.escalated cls ra proof fix e schedules ho he hf hx)
      (by simp) ?_ (.inl ⟨hx, ?_, ?_⟩) <;> rcases hf with rfl | rfl
    · simp [repromptsOf, RunnerEvent.reprompts]
    · simp [repromptsOf, RunnerEvent.reprompts]
    · simpa using hnoh
    · simpa using hnoh
    · simp [rungsOf, RunnerEvent.rung, filterMap_cons]
    · simp [rungsOf, RunnerEvent.rung, filterMap_cons]
  | exhausted cls ra proof fix e ho he hf hx =>
    refine h.record_escalated hsh hs he (.exhausted cls ra proof fix e ho he hf hx) (by simp) ?_
      (.inr ⟨by simp, ?_⟩) <;> rcases hf with rfl | rfl
    · simp [repromptsOf, RunnerEvent.reprompts]
    · simp [repromptsOf, RunnerEvent.reprompts]
    · simp [rungsOf, RunnerEvent.rung]
    · simp [rungsOf, RunnerEvent.rung]

theorem Climb.step (hsh : Shape input r) (hrp : Replays input r) (h : Climb input r)
    (hst : Step r r') : Climb input r' := by
  cases hst with
  | record _ _ hs _ ht hc => exact h.record hsh hrp hs ht hc
  | shed => exact { h with }
  | start t =>
    exact h.extend [.started t] (by simp [RunnerEvent.offLadder]) rfl rfl rfl
  | halt notes reason _ hh =>
    refine h.extend (notes ++ [.stopped reason]) (fun e he => ?_) rfl rfl rfl
    rcases hh.control he with rfl | rfl | rfl | ⟨x, rfl⟩ <;> rfl
  | pause => exact h.extend [.paused] (by simp [RunnerEvent.offLadder]) rfl rfl rfl
  | resume => exact h.extend [.resumed] (by simp [RunnerEvent.offLadder]) rfl rfl rfl

/-! ## after a terminal stop -/

theorem Step.frozen {x : StopReason} (hst : Step r r') (hs : r.stopReason = some x)
    (hx : x ≠ .paused) : r'.stopReason = some x ∧ r'.completed = r.completed ∧
      startsOf t r'.journal = startsOf t r.journal := by
  cases hst with
  | record t o hn => rw [hs] at hn; exact absurd hn (by simp)
  | shed _ hn => rw [hs] at hn; exact absurd hn (by simp)
  | start t hn => rw [hs] at hn; exact absurd hn (by simp)
  | halt _ _ hn => rw [hs] at hn; exact absurd hn (by simp)
  | pause => exact ⟨hs, rfl, startsOf_append t _ (by simp [RunnerEvent.isStart])⟩
  | resume =>
    refine ⟨?_, rfl, startsOf_append t _ (by simp [RunnerEvent.isStart])⟩
    show (if r.stopReason = some .paused then none else r.stopReason) = some x
    rw [hs, if_neg (by simpa using hx)]

theorem steps_frozen {x : StopReason} (hst : Relation.ReflTransGen Step r r')
    (hs : r.stopReason = some x) (hx : x ≠ .paused) : r'.stopReason = some x ∧
      r'.completed = r.completed ∧ startsOf t r'.journal = startsOf t r.journal := by
  induction hst with
  | refl => exact ⟨hs, rfl, rfl⟩
  | tail _ h1 ih =>
    obtain ⟨h2, h3, h4⟩ := h1.frozen ih.1 hx
    exact ⟨h2, h3.trans ih.2.1, h4.trans ih.2.2⟩

theorem climb_new {r0 : BacklogRunner} (hnew : new input = .ok r0) : Climb input r0 := by
  obtain ⟨e0, ladders, he0, rfl, hget⟩ := new_spec hnew
  obtain ⟨_, hlev, hatt⟩ := EscalationState.new_level he0
  refine ⟨fun t => Nat.zero_le _, fun t => ⟨Nat.zero_le _, Nat.zero_le _⟩,
    fun t => ⟨.nil, fun s hs => absurd hs not_mem_nil⟩, fun t e _ he => ?_,
    fun t hm => absurd hm not_mem_nil⟩
  have he' : ladders[t]? = some e := he
  rw [hget] at he'
  split_ifs at he'
  rw [← Option.some.inj he']
  refine ⟨?_, ⟨0, Nat.zero_le _, perRung_pos, Nat.zero_le _⟩,
    fun s hs => absurd hs not_mem_nil⟩
  rw [rungs]
  omega

end

/-- failures per task are bounded, rungs are climbed in order, and the hand-over is final -/
theorem failures_bounded (input : RunnerInput) (r0 : BacklogRunner)
    (hnew : new input = .ok r0) (calls : List Call) (t : BacklogTaskId) :
    let r := r0.exec calls
    failedOf t r.journal ≤ max 1 (input.escalationPolicy.steps.length - 1) *
        max 1 input.maxAttemptsPerStep + (input.maxRepromptAttempts - 1) ∧
    (rungsOf t r.journal).Pairwise (· < ·) ∧
    (∀ s ∈ rungsOf t r.journal, s ∈ input.escalationPolicy.steps ∧ s ≠ .humanEscalation) ∧
    (.humanEscalation t ∈ r.journal → r.blocked[t]? = some .humanEscalation ∧
      r.stopReason = some .failuresBlocked ∧
      ∀ later, startsOf t (r.exec later).journal = startsOf t r.journal ∧
        t ∉ (r.exec later).completed) := by
  intro r
  have h : Replays input r ∧ Climb input r :=
    exec_induction (P := fun r => Replays input r ∧ Climb input r) hnew
      ⟨replays_new hnew, climb_new hnew⟩
      (fun _ _ hsh h hst => ⟨h.1.step hsh hst, h.2.step hsh h.1 hst⟩) calls
  have hsh : Shape input r := exec_shape hnew calls
  refine ⟨?_, (h.2.steps t).1, (h.2.steps t).2, fun hm => ?_⟩
  · have h1 := h.2.bound t
    have h2 := (h.2.reprompts t).2
    rw [rungs, perRung] at h1
    omega
  · have hblk := h.2.human t hm
    obtain ⟨hstop, hel, _, _⟩ := hsh.blocked_stop t _ hblk
    refine ⟨hblk, hstop, fun later => ?_⟩
    obtain ⟨_, h2, h3⟩ := steps_frozen (exec_steps hsh later) hstop (by decide)
    refine ⟨h3, ?_⟩
    rw [h2]
    exact (r.dag.mem_eligible.mp hel).2.1

def shortLadder : RunnerInput :=
  { sampleInput with
    attemptBudget := 9
    attemptBudget_le := by decide
    escalationPolicy := { steps := [.alternateModel, .humanEscalation] } }

def shortRunner : BacklogRunner := (new shortLadder).toOption.get (by decide)

def twoFailures : List Call :=
  [.tick ∅, .tick {("a", .failed .verification none none)}, .tick ∅,
    .tick {("a", .failed .verification none none)}]

theorem failures_bounded_sample :
    failedOf "a" (shortRunner.exec twoFailures).journal ≤ 3 ∧
      .humanEscalation "a" ∈ (shortRunner.exec twoFailures).journal ∧
      (shortRunner.exec twoFailures).stopReason = some .failuresBlocked := by
  have h := failures_bounded shortLadder shortRunner (ok_of_isSome _) twoFailures "a"
  have hm : .humanEscalation "a" ∈ (shortRunner.exec twoFailures).journal := by decide +kernel
  exact ⟨h.1, hm, (h.2.2.2 hm).2.1⟩

end BacklogRunner
end Delivery

import Orchestraitor.Base.History
import Orchestraitor.Delivery.Runner

/-!
# What one consumed outcome does

`Consumed r t o r'` lists what consuming outcome `o` of the running task `t` can do to an
unstopped runner, with the resulting state written out.  Every later argument about outcomes is a
case split over it instead of over the branches of the source.
-/

namespace Delivery
open Base Std Relation AttemptOutcome

def BlockReason.stop : BlockReason → StopReason
  | .humanEscalation => .failuresBlocked
  | .securityBlock => .securityBlock
  | .approvalRequired => .approvalRequired

theorem BlockReason.stop_ne_paused (b : BlockReason) : b.stop ≠ .paused := by
  cases b <;> decide

def AttemptOutcome.parks : AttemptOutcome → Option BlockReason
  | .approvalRequired => some .approvalRequired
  | .policyDenied => some .securityBlock
  | .failed .approvalRequired _ _ => some .approvalRequired
  | .failed .policyDenial _ _ => some .securityBlock
  | .failed .nonRetriableConfigOrSecurity _ _ => some .securityBlock
  | _ => none

/-- events an outcome can leave after its record: no start, no record, no stop of an idle runner -/
def RunnerEvent.isNote : RunnerEvent → Bool
  | .started _ | .attemptRecorded _ _ _ | .resumed | .budgetExhausted => false
  | .stopped reason => !(reason == .backlogEmpty || reason == .noEligibleTasks ||
      reason == .budgetExhausted)
  | _ => true

namespace BacklogRunner

/-! ## what one consumed outcome does -/

/-- the event that puts a failed task back on the queue at its current rung, `c` failures there -/
inductive Requeues (r : BacklogRunner) (t : BacklogTaskId) (cls : FailureClass)
    (proof : Option IdempotencyProof) (c : Nat) : RunnerEvent → Prop
  | retry (delayMs : Nat) (hcls : cls.Retryable proof) (hc : c < r.maxAttemptsPerStep) :
    Requeues r t cls proof c (.retryScheduled t delayMs)
  | hold (ms : Nat) (hcls : cls = .rateLimit) (hc : c < r.maxAttemptsPerStep) :
    Requeues r t cls proof c (.retryHeld t ms)
  | fix (hc : c < r.maxAttemptsPerStep) : Requeues r t cls proof c (.fixRootCause t)
  | reprompt (attempt : Nat) (ha : r.attemptOf t < r.maxRepromptAttempts) :
    Requeues r t cls proof c (.reprompt t attempt)

/-- at most the ladder of `t` moved, under the same policy -/
def LadderMove (r : BacklogRunner) (t : BacklogTaskId)
    (ladders : OrdMap BacklogTaskId EscalationState) : Prop :=
  ladders = r.escalation ∨ ∃ e e', r.escalation[t]? = some e ∧ e'.policy = e.policy ∧
    ladders = r.escalation.insert t e'

/-- consuming outcome `o` of the running task `t` -/
inductive Consumed (r : BacklogRunner) (t : BacklogTaskId) :
    AttemptOutcome → BacklogRunner → Prop
  | completed : Consumed r t .completed { r with
      journal := r.journal ++ [.attemptRecorded t (r.attemptOf t) .completed]
      running := r.running.erase t
      completed := r.completed.insert t
      retrySchedules := r.retrySchedules.erase t }
  | paused : Consumed r t .paused { r with
      journal := r.journal ++
        [.attemptRecorded t (r.attemptOf t) .paused, .paused, .stopped .paused]
      paused := true
      stopReason := some .paused }
  | parked (o : AttemptOutcome) (reason : BlockReason)
      (ladders : OrdMap BacklogTaskId EscalationState) (ho : o.parks = some reason)
      (hl : r.LadderMove t ladders) : Consumed r t o { r with
      journal := r.journal ++
        [.attemptRecorded t (r.attemptOf t) o, .blocked t reason, .stopped reason.stop]
      running := r.running.erase t
      blocked := r.blocked.insert t reason
      escalation := ladders
      stopReason := some reason.stop }
  | requeued (cls : FailureClass) (ra : Option Nat) (proof : Option IdempotencyProof)
      (event : RunnerEvent) (e : EscalationState)
      (schedules : OrdMap BacklogTaskId RetrySchedule)
      (ho : (AttemptOutcome.failed cls ra proof).parks = none) (he : r.escalation[t]? = some e)
      (hq : Requeues r t cls proof e.recordFailure.attemptsAtCurrentStep event) :
      Consumed r t (.failed cls ra proof) { r with
      journal := r.journal ++
        [.attemptRecorded t (r.attemptOf t) (.failed cls ra proof), event]
      running := r.running.erase t
      pending := r.pending.insert t
      escalation := r.escalation.insert t e.recordFailure
      retrySchedules := schedules }
  | escalated (cls : FailureClass) (ra : Option Nat) (proof : Option IdempotencyProof)
      (fix : List RunnerEvent) (e : EscalationState)
      (schedules : OrdMap BacklogTaskId RetrySchedule)
      (ho : (AttemptOutcome.failed cls ra proof).parks = none) (he : r.escalation[t]? = some e)
      (hf : fix = [] ∨ fix = [.fixRootCause t])
      (hx : e.recordFailure.advance.2.exhausted = false) :
      Consumed r t (.failed cls ra proof) { r with
      journal := r.journal ++ ([.attemptRecorded t (r.attemptOf t) (.failed cls ra proof)] ++ fix ++
        [.escalationStep t e.recordFailure.advance.2.currentStep])
      running := r.running.erase t
      pending := r.pending.insert t
      escalation := r.escalation.insert t e.recordFailure.advance.2
      retrySchedules := schedules }
  | exhausted (cls : FailureClass) (ra : Option Nat) (proof : Option IdempotencyProof)
      (fix : List RunnerEvent) (e : EscalationState)
      (ho : (AttemptOutcome.failed cls ra proof).parks = none) (he : r.escalation[t]? = some e)
      (hf : fix = [] ∨ fix = [.fixRootCause t])
      (hx : e.recordFailure.advance.2.exhausted = true) :
      Consumed r t (.failed cls ra proof) { r with
      journal := r.journal ++ ([.attemptRecorded t (r.attemptOf t) (.failed cls ra proof)] ++ fix ++
        [.humanEscalation t, .blocked t .humanEscalation, .stopped .failuresBlocked])
      running := r.running.erase t
      blocked := r.blocked.insert t .humanEscalation
      escalation := r.escalation.insert t e.recordFailure.advance.2
      stopReason := some .failuresBlocked }

/-! ## the mutations of an unstopped runner -/

variable {r r' : BacklogRunner} {t : BacklogTaskId} {o : AttemptOutcome}

theorem setStop_eq (h : r.stopReason = none) (reason : StopReason) :
    r.setStop reason
      = { r with journal := r.journal ++ [.stopped reason], stopReason := some reason } := by
  rw [setStop, h]
  rfl

theorem park_eq (h : r.stopReason = none) (t : BacklogTaskId) (reason : BlockReason)
    (stop : StopReason) :
    r.park t reason stop = { r with
      journal := r.journal ++ [.blocked t reason, .stopped stop]
      blocked := r.blocked.insert t reason
      stopReason := some stop } := by
  rw [park, setStop_eq (by exact h)]
  simp [pushEvent]

theorem escalate_eq (h : r.stopReason = none) {e : EscalationState} (he : r.escalation[t]? = some e) :
    r.escalate t = if e.advance.2.exhausted then { r with
        journal := r.journal ++
          [.humanEscalation t, .blocked t .humanEscalation, .stopped .failuresBlocked]
        blocked := r.blocked.insert t .humanEscalation
        escalation := r.escalation.insert t e.advance.2
        stopReason := some .failuresBlocked }
      else { r with
        journal := r.journal ++ [.escalationStep t e.advance.2.currentStep]
        pending := r.pending.insert t
        escalation := r.escalation.insert t e.advance.2
        retrySchedules := r.retrySchedules.erase t } := by
  rw [escalate, he]
  dsimp only
  cases hx : e.advance.2.exhausted with
  | true =>
    rw [park_eq (by exact h)]
    simp [pushEvent]
  | false =>
    -- below the last rung `advance` names the new step
    have hne : e.exhausted = false := by
      by_contra hc
      rw [e.advance_exhausted (by simpa using hc)] at hx
      simp [hx] at hc
    obtain ⟨step, h1, h2, _⟩ := e.advance_level hne
    simp only [h1, h2]
    rfl

def failing (r : BacklogRunner) (t : BacklogTaskId) (o : AttemptOutcome) (e : EscalationState)
    (notes : List RunnerEvent) : BacklogRunner :=
  { r with
    journal := r.journal ++ ([.attemptRecorded t (r.attemptOf t) o] ++ notes)
    running := r.running.erase t
    escalation := r.escalation.insert t e.recordFailure }

section
variable {r : BacklogRunner} {t : BacklogTaskId} {e : EscalationState}
  {cls : FailureClass} {ra : Option Nat} {proof : Option IdempotencyProof}

theorem failing_escalate (h : r.stopReason = none) (he : r.escalation[t]? = some e)
    (ho : (failed cls ra proof).parks = none) {notes : List RunnerEvent}
    (hf : notes = [] ∨ notes = [.fixRootCause t]) :
    Consumed r t (.failed cls ra proof)
      ((r.failing t (.failed cls ra proof) e notes).escalate t) := by
  have he' : (r.failing t (.failed cls ra proof) e notes).escalation[t]?
      = some e.recordFailure := by
    simp [failing]
  rw [escalate_eq (by exact h) he']
  cases hx : e.recordFailure.advance.2.exhausted with
  | true =>
    have := Consumed.exhausted cls ra proof notes e ho he hf hx
    simpa [failing, OrdMap.insert_insert_self] using this
  | false =>
    have := Consumed.escalated cls ra proof notes e
      (r.retrySchedules.erase t) ho he hf hx
    simpa [failing, OrdMap.insert_insert_self] using this

theorem failing_park (h : r.stopReason = none) (he : r.escalation[t]? = some e)
    {reason : BlockReason} (ho : (failed cls ra proof).parks = some reason) :
    Consumed r t (.failed cls ra proof)
      ((r.failing t (.failed cls ra proof) e []).park t reason reason.stop) := by
  have := Consumed.parked _ reason (r.escalation.insert t e.recordFailure) ho
    (.inr ⟨e, e.recordFailure, he, rfl, rfl⟩)
  rw [park_eq (by exact h)]
  simpa [failing] using this

theorem failing_requeue (he : r.escalation[t]? = some e)
    (ho : (failed cls ra proof).parks = none) {event : RunnerEvent}
    (schedules : OrdMap BacklogTaskId RetrySchedule)
    (hq : Requeues r t cls proof e.recordFailure.attemptsAtCurrentStep event) :
    Consumed r t (.failed cls ra proof)
      { r.failing t (.failed cls ra proof) e [event] with
        pending := r.pending.insert t
        retrySchedules := schedules } :=
  .requeued cls ra proof event e schedules ho he hq

theorem recordFailure_failing (he : r.escalation[t]? = some e) :
    ({ r with running := r.running.erase t }.pushEvent
      (.attemptRecorded t (r.attemptOf t) (.failed cls ra proof))).recordFailure t
        = r.failing t (.failed cls ra proof) e [] := by
  rw [recordFailure]
  simp [pushEvent, he, failing]

theorem attemptsAtStep_failing {o : AttemptOutcome} {notes : List RunnerEvent} :
    (r.failing t o e notes).attemptsAtStep t = e.recordFailure.attemptsAtCurrentStep := by
  simp [attemptsAtStep, failing]

theorem pushEvent_failing {o : AttemptOutcome} (event : RunnerEvent) :
    (r.failing t o e []).pushEvent event = r.failing t o e [event] := by
  simp [pushEvent, failing]

theorem handleFailure_spec (h : r.stopReason = none) (he : r.escalation[t]? = some e) :
    Consumed r t (.failed cls ra proof)
      (({ r with running := r.running.erase t }.pushEvent
        (.attemptRecorded t (r.attemptOf t) (.failed cls ra proof))).handleFailure t cls ra proof
          (r.attemptOf t)) := by
  have hM : (r.failing t (.failed cls ra proof) e []).maxAttemptsPerStep
      = r.maxAttemptsPerStep := rfl
  have hR : (r.failing t (.failed cls ra proof) e []).maxRepromptAttempts
      = r.maxRepromptAttempts := rfl
  unfold handleFailure
  dsimp only
  rw [recordFailure_failing he, hR]
  cases hg : gated cls (r.attemptOf t) ra r.maxRepromptAttempts proof with
  | retry =>
    have hcls := gated_retry hg
    have ho : (failed cls ra proof).parks = none := by
      rcases hcls with rfl | rfl | ⟨rfl, _⟩ <;> rfl
    dsimp only
    rw [attemptsAtStep_failing]
    split_ifs with hc
    · have := failing_requeue he ho (r.retrySchedules.insert t
        { r.retrySchedules[t]?.getD {} with
          attempt := satAdd32 (r.retrySchedules[t]?.getD {}).attempt 1 })
        (.retry (r.retrySchedules[t]?.getD {}).nextDelay hcls hc)
      simpa [scheduleRetry, failing, pushEvent, requeue] using this
    · exact failing_escalate h he ho (.inl rfl)
  | hold ms =>
    have hcls := gated_hold hg
    have ho : (failed cls ra proof).parks = none := by rw [hcls]; rfl
    dsimp only
    rw [attemptsAtStep_failing, pushEvent_failing]
    split_ifs with hc
    · exact failing_requeue he ho r.retrySchedules (.hold ms hcls hc)
    · exact failing_escalate h he ho (.inl rfl)
  | fixRootCause =>
    have ho : (failed cls ra proof).parks = none := by
      rcases gated_fixRootCause hg with rfl | rfl | rfl <;> rfl
    dsimp only
    rw [attemptsAtStep_failing, pushEvent_failing]
    split_ifs with hc
    · exact failing_requeue he ho r.retrySchedules (.fix hc)
    · exact failing_escalate h he ho (.inr rfl)
  | reprompt a =>
    obtain ⟨rfl, ha⟩ := gated_reprompt hg
    dsimp only
    rw [pushEvent_failing]
    exact failing_requeue he rfl r.retrySchedules (.reprompt a ha)
  | awaitUser =>
    obtain rfl := gated_awaitUser hg
    exact failing_park h he rfl
  | escalate =>
    rcases gated_escalate hg with rfl | rfl | rfl
    · exact failing_park h he
        (show (failed .policyDenial ra proof).parks = some .securityBlock from rfl)
    · exact failing_park h he (show (failed .nonRetriableConfigOrSecurity ra
        proof).parks = some .securityBlock from rfl)
    · exact failing_escalate h he rfl (.inl rfl)

end

theorem consumeOutcome_spec (ht : t ∈ r.running) (h : r.stopReason = none) {e : EscalationState}
    (he : r.escalation[t]? = some e) (o : AttemptOutcome) :
    Consumed r t o ({ r with running := r.running.erase t }.consumeOutcome t o) := by
  cases o with
  | completed => exact .completed
  | paused =>
    rw [consumeOutcome]
    rw [setStop_eq (by exact h)]
    have := Consumed.paused (r := r) (t := t)
    simpa [pushEvent, attemptOf, OrdSet.insert_erase_self ht] using this
  | approvalRequired =>
    have := Consumed.parked (r := r) (t := t) .approvalRequired .approvalRequired _ rfl (.inl rfl)
    rw [consumeOutcome]
    rw [park_eq (by exact h)]
    simpa [pushEvent, attemptOf, BlockReason.stop] using this
  | policyDenied =>
    have := Consumed.parked (r := r) (t := t) .policyDenied .securityBlock _ rfl (.inl rfl)
    rw [consumeOutcome]
    rw [park_eq (by exact h)]
    simpa [pushEvent, attemptOf, BlockReason.stop] using this
  | failed => exact handleFailure_spec h he

theorem Consumed.notes (h : Consumed r t o r') : ∃ notes,
    r'.journal = r.journal ++ (.attemptRecorded t (r.attemptOf t) o :: notes) ∧
      ∀ e ∈ notes, e.isNote = true := by
  cases h with
  | completed => exact ⟨[], rfl, by simp⟩
  | paused => exact ⟨[.paused, .stopped .paused], rfl, by simp [RunnerEvent.isNote]⟩
  | parked _ reason =>
    refine ⟨[.blocked t reason, .stopped reason.stop], rfl, ?_⟩
    cases reason <;> simp [RunnerEvent.isNote, BlockReason.stop]
  | requeued _ _ _ event _ _ _ _ hq =>
    refine ⟨[event], rfl, ?_⟩
    cases hq <;> simp [RunnerEvent.isNote]
  | escalated _ _ _ _ _ _ _ _ hf =>
    refine ⟨_, rfl, ?_⟩
    rcases hf with rfl | rfl <;> simp [RunnerEvent.isNote]
  | exhausted _ _ _ _ _ _ _ hf =>
    refine ⟨_, rfl, ?_⟩
    rcases hf with rfl | rfl <;> simp [RunnerEvent.isNote]

theorem Consumed.mem_journal {e : RunnerEvent} (h : Consumed r t o r') (he : e ∈ r'.journal) :
    e ∈ r.journal ∨ e = .attemptRecorded t (r.attemptOf t) o ∨ e.isNote = true := by
  obtain ⟨notes, hj, hn⟩ := h.notes
  rw [hj, List.mem_append, List.mem_cons] at he
  rcases he with he | he | he
  · exact .inl he
  · exact .inr (.inl he)
  · exact .inr (.inr (hn e he))

theorem Consumed.eachSplit {P : List RunnerEvent → RunnerEvent → Prop} (hc : Consumed r t o r')
    (h : EachSplit P r.journal) (hrec : P r.journal (.attemptRecorded t (r.attemptOf t) o))
    (hnote : ∀ pre e, e.isNote = true → P pre e) : EachSplit P r'.journal := by
  obtain ⟨notes, hj, hn⟩ := hc.notes
  rw [hj, List.append_cons]
  refine (h.concat hrec).append (fun pre e post heq => hnote _ e (hn e ?_))
  rw [heq]
  simp

theorem Consumed.mem_running (hc : Consumed r t o r') (a : BacklogTaskId) :
    a ∈ r'.running ↔ a ∈ r.running ∧ (a = t → o = .paused) := by
  have key : o ≠ .paused → (a ∈ r.running.erase t ↔ a ∈ r.running ∧ (a = t → o = .paused)) := by
    intro hne
    rw [OrdSet.mem_erase_iff, and_comm]
    simp only [hne]
  cases hc with
  | completed => exact key (by simp)
  | paused => exact ⟨fun h => ⟨h, fun _ => rfl⟩, fun h => h.1⟩
  | parked _ _ _ ho =>
    refine key ?_
    rintro rfl
    exact absurd ho (by simp [parks])
  | requeued | escalated | exhausted => exact key (by simp)

theorem Consumed.counters (hc : Consumed r t o r') :
    r'.attempts = r.attempts ∧ r'.budgetRemaining = r.budgetRemaining := by
  cases hc <;> exact ⟨rfl, rfl⟩

end BacklogRunner
end Delivery

import Orchestraitor.Delivery.Schedule
import Orchestraitor.Delivery.Failures
import Orchestraitor.Delivery.Escalation
import Orchestraitor.Delivery.ReviewLoop

/-!
# The backlog runner (`runner.rs`)

The state of a `BacklogRunner` and its four calls: `tick`, `run`, `pause`, `resume`.  Every
mutation of the source is a function from state to state; the journal grows at its end.
-/

namespace Delivery
open Base Std

/-! ## outcomes, reasons, events -/

inductive AttemptOutcome where
  | completed
  | failed (cls : FailureClass) (retryAfterMs : Option Nat) (proof : Option IdempotencyProof)
  | approvalRequired
  | policyDenied
  | paused
  deriving DecidableEq

inductive StopReason where
  | backlogEmpty
  | noEligibleTasks
  | budgetExhausted
  | approvalRequired
  | failuresBlocked
  | securityBlock
  | paused
  deriving DecidableEq

inductive BlockReason where
  | humanEscalation
  | securityBlock
  | approvalRequired
  deriving DecidableEq

inductive RunnerEvent where
  | started (task : BacklogTaskId)
  | attemptRecorded (task : BacklogTaskId) (attempt : Nat) (outcome : AttemptOutcome)
  | retryScheduled (task : BacklogTaskId) (delayMs : Nat)
  | retryHeld (task : BacklogTaskId) (retryAfterMs : Nat)
  | fixRootCause (task : BacklogTaskId)
  | reprompt (task : BacklogTaskId) (attempt : Nat)
  | escalationStep (task : BacklogTaskId) (step : EscalationStep)
  | humanEscalation (task : BacklogTaskId)
  | blocked (task : BacklogTaskId) (reason : BlockReason)
  | paused
  | resumed
  | budgetExhausted
  | stopped (reason : StopReason)
  deriving DecidableEq

inductive RunnerError where
  | invalidReviewLoopConfig (source : ReviewLoopConfigError)
  | invalidSchedulerConfig (source : SchedulerConfigError)
  | invalidEscalationPolicy (source : EscalationPolicyError)

/-- inputs of a run; the three counters are `u32` in the source -/
structure RunnerInput where
  dag : TaskDag
  config : ReviewLoopConfig
  schedulerConfig : SchedulerConfig
  attemptBudget : Nat
  maxRepromptAttempts : Nat
  maxAttemptsPerStep : Nat
  escalationPolicy : EscalationPolicy
  attemptBudget_le : attemptBudget ≤ u32Max := by decide
  maxRepromptAttempts_le : maxRepromptAttempts ≤ u32Max := by decide
  maxAttemptsPerStep_le : maxAttemptsPerStep ≤ u32Max := by decide

structure BacklogRunner where
  dag : TaskDag
  config : ReviewLoopConfig
  scheduler : ParallelScheduler
  budgetRemaining : Nat
  maxRepromptAttempts : Nat
  maxAttemptsPerStep : Nat
  journal : List RunnerEvent
  completed : OrdSet BacklogTaskId
  blocked : OrdMap BacklogTaskId BlockReason
  running : OrdSet BacklogTaskId
  pending : OrdSet BacklogTaskId
  attempts : OrdMap BacklogTaskId Nat
  retrySchedules : OrdMap BacklogTaskId RetrySchedule
  escalation : OrdMap BacklogTaskId EscalationState
  paused : Bool
  stopReason : Option StopReason

namespace BacklogRunner

/-! ## construction -/

def seedLadders (policy : EscalationPolicy) (map : OrdMap BacklogTaskId EscalationState) :
    List BacklogTaskId →
      Except EscalationPolicyError (OrdMap BacklogTaskId EscalationState)
  | [] => .ok map
  | id :: rest =>
    match EscalationState.new policy with
    | .error e => .error e
    | .ok state => seedLadders policy (map.insert id state) rest

def new (input : RunnerInput) : Except RunnerError BacklogRunner :=
  match input.config.validate with
  | .error e => .error (.invalidReviewLoopConfig e)
  | .ok () =>
    match input.schedulerConfig.validate with
    | .error e => .error (.invalidSchedulerConfig e)
    | .ok () =>
      match input.escalationPolicy.validate with
      | .error e => .error (.invalidEscalationPolicy e)
      | .ok () =>
        match seedLadders input.escalationPolicy ∅ input.dag.tasks.keys with
        | .error e => .error (.invalidEscalationPolicy e)
        | .ok escalation => .ok {
            dag := input.dag
            config := input.config
            scheduler := ⟨input.schedulerConfig⟩
            budgetRemaining := input.attemptBudget
            maxRepromptAttempts := input.maxRepromptAttempts
            maxAttemptsPerStep := input.maxAttemptsPerStep
            journal := []
            completed := ∅
            blocked := ∅
            running := ∅
            pending := ∅
            attempts := ∅
            retrySchedules := ∅
            escalation := escalation
            paused := false
            stopReason := none }

/-! ## mutations -/

variable (r : BacklogRunner)

def pushEvent (event : RunnerEvent) : BacklogRunner := { r with journal := r.journal ++ [event] }

def setStop (reason : StopReason) : BacklogRunner :=
  if r.stopReason.isNone then { r with stopReason := some reason }.pushEvent (.stopped reason)
  else r

variable (task : BacklogTaskId)

def park (reason : BlockReason) (stop : StopReason) : BacklogRunner :=
  ({ r with blocked := r.blocked.insert task reason }.pushEvent (.blocked task reason)).setStop stop

def requeue : BacklogRunner := { r with pending := r.pending.insert task }

def pause : BacklogRunner :=
  if r.paused then r else { r with paused := true }.pushEvent .paused

def resume : BacklogRunner :=
  if !r.paused then r
  else
    let r' := { r with paused := false }.pushEvent .resumed
    if r'.stopReason = some .paused then { r' with stopReason := none } else r'

/-! ## one reported outcome -/

def escalate : BacklogRunner :=
  match r.escalation[task]? with
  | none => (r.pushEvent (.humanEscalation task)).park task .humanEscalation .failuresBlocked
  | some state =>
    let r' := { r with escalation := r.escalation.insert task state.advance.2 }
    if state.advance.2.exhausted then
      (r'.pushEvent (.humanEscalation task)).park task .humanEscalation .failuresBlocked
    else
      match state.advance.1 with
      | none => r'
      | some step =>
        ({ r' with retrySchedules := r.retrySchedules.erase task }.pushEvent
          (.escalationStep task step)).requeue task

def recordFailure (task : BacklogTaskId) : BacklogRunner :=
  match r.escalation[task]? with
  | none => r
  | some state => { r with escalation := r.escalation.insert task state.recordFailure }

def attemptsAtStep : Nat :=
  (r.escalation[task]?.map (·.attemptsAtCurrentStep)).getD u32Max

def scheduleRetry : BacklogRunner :=
  let schedule := r.retrySchedules[task]?.getD {}
  let next := { schedule with attempt := satAdd32 schedule.attempt 1 }
  ({ r with retrySchedules := r.retrySchedules.insert task next }.pushEvent
    (.retryScheduled task schedule.nextDelay)).requeue task

def handleFailure (cls : FailureClass) (retryAfterMs : Option Nat) (proof : Option IdempotencyProof)
    (failingAttempt : Nat) : BacklogRunner :=
  let r := r.recordFailure task
  let attemptsAtStep := r.attemptsAtStep task
  match gated cls failingAttempt retryAfterMs r.maxRepromptAttempts proof with
  | .retry _ =>
    if attemptsAtStep < r.maxAttemptsPerStep then r.scheduleRetry task else r.escalate task
  | .hold ms =>
    if attemptsAtStep < r.maxAttemptsPerStep then
      (r.pushEvent (.retryHeld task ms)).requeue task
    else r.escalate task
  | .fixRootCause =>
    let r := r.pushEvent (.fixRootCause task)
    if attemptsAtStep < r.maxAttemptsPerStep then r.requeue task else r.escalate task
  | .reprompt attempt => (r.pushEvent (.reprompt task attempt)).requeue task
  | .awaitUser => r.park task .approvalRequired .approvalRequired
  | .escalate =>
    match cls with
    | .policyDenial | .nonRetriableConfigOrSecurity => r.park task .securityBlock .securityBlock
    | _ => r.escalate task

def attemptOf : Nat := r.attempts[task]?.getD 1

def consumeOutcome (outcome : AttemptOutcome) : BacklogRunner :=
  let attempt := r.attemptOf task
  let r := r.pushEvent (.attemptRecorded task attempt outcome)
  match outcome with
  | .completed =>
    { r with
      completed := r.completed.insert task
      retrySchedules := r.retrySchedules.erase task }
  | .paused =>
    let r := ({ r with paused := true }.pushEvent .paused).setStop .paused
    { r with running := r.running.insert task }
  | .approvalRequired => r.park task .approvalRequired .approvalRequired
  | .policyDenied => r.park task .securityBlock .securityBlock
  | .failed cls retryAfterMs proof => r.handleFailure task cls retryAfterMs proof attempt

/-! ## one tick -/

def consumeAll : List (BacklogTaskId × AttemptOutcome) → BacklogRunner → BacklogRunner
  | [], r => r
  | (task, outcome) :: rest, r =>
    if r.stopReason.isSome then r
    else if task ∈ r.running then
      consumeAll rest ({ r with running := r.running.erase task }.consumeOutcome task outcome)
    else consumeAll rest r

def startable (due : OrdSet BacklogTaskId) : OrdSet BacklogTaskId :=
  (r.dag.eligible r.completed).foldl (fun s id =>
    if id ∉ r.blocked ∧ id ∉ r.running ∧ id ∉ r.pending then s.insert id else s) due

def start : BacklogRunner :=
  { r with
    budgetRemaining := r.budgetRemaining - 1
    attempts := r.attempts.insert task (satAdd32 (r.attempts[task]?.getD 0) 1)
    running := r.running.insert task }.pushEvent (.started task)

def dispatch (selection : List BacklogTaskId) : List BacklogTaskId → BacklogRunner → BacklogRunner
  | [], r => r
  | task :: rest, r =>
    if task ∉ selection then dispatch selection rest r
    else if r.budgetRemaining = 0 then (r.pushEvent .budgetExhausted).setStop .budgetExhausted
    else dispatch selection rest (r.start task)

def selection : List BacklogTaskId :=
  r.scheduler.select r.dag r.completed r.running.toList 0

def settle : BacklogRunner :=
  if r.stopReason.isNone ∧ r.running.isEmpty ∧ r.pending.isEmpty then
    if r.completed.size = r.dag.len then r.setStop .backlogEmpty
    else if ((r.dag.eligible r.completed).filter (fun id => id ∉ r.blocked)).length = 0 then
      r.setStop .noEligibleTasks
    else r
  else r

def tickState (outcomes : OrdMap BacklogTaskId AttemptOutcome) : BacklogRunner :=
  if r.stopReason.isSome then r
  else if r.paused then r.setStop .paused
  else
    let due := r.pending
    let r' := consumeAll outcomes.toList { r with pending := ∅ }
    if r'.stopReason.isSome then { r' with pending := r'.pending ∪ due }
    else settle (dispatch r'.selection (r'.startable due).toList r')

def tick (outcomes : OrdMap BacklogTaskId AttemptOutcome) : BacklogRunner × List RunnerEvent :=
  let r' := r.tickState outcomes
  (r', r'.journal.drop r.journal.length)

def run (outcomes : OrdMap BacklogTaskId AttemptOutcome) :
    Nat → BacklogRunner → BacklogRunner × List RunnerEvent
  | 0, r => (r, [])
  | maxTicks + 1, r =>
    if r.stopReason.isSome then (r, [])
    else
      let t := r.tick outcomes
      if t.2.isEmpty then t
      else
        let rest := run outcomes maxTicks t.1
        (rest.1, t.2 ++ rest.2)

end BacklogRunner

/-! ## sequences of calls -/

inductive Call where
  | tick (outcomes : OrdMap BacklogTaskId AttemptOutcome)
  | run (outcomes : OrdMap BacklogTaskId AttemptOutcome) (maxTicks : Nat)
  | pause
  | resume

variable (r : BacklogRunner)

def BacklogRunner.call : Call → BacklogRunner
  | .tick outcomes => (r.tick outcomes).1
  | .run outcomes maxTicks => (BacklogRunner.run outcomes maxTicks r).1
  | .pause => r.pause
  | .resume => r.resume

def BacklogRunner.exec (calls : List Call) : BacklogRunner :=
  calls.foldl BacklogRunner.call r

theorem BacklogRunner.exec_concat (calls : List Call) (c : Call) :
    r.exec (calls ++ [c]) = (r.exec calls).call c := List.foldl_concat _ _ _ _

end Delivery

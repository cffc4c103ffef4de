import Orchestraitor.Base.Prim
import Orchestraitor.Lifecycle.StateMachine

/-!
# Restart and lease recovery (`recovery.rs`, `lease.rs`)

Recovery looks at a durable record and decides the state it should be in.  It decides by a table of
its own; a decision takes effect through the transition table of the machine.
-/

namespace Lifecycle
open Base SessionState

/-! ## leases -/

structure Lease where
  acquiredAtUnixSecs : Nat
  ttl : Nat

def Lease.expiresAtUnixSecs (lease : Lease) : Nat := satAdd64 lease.acquiredAtUnixSecs lease.ttl

def Lease.isExpiredAt (lease : Lease) (nowUnixSecs : Nat) : Bool :=
  lease.expiresAtUnixSecs ≤ nowUnixSecs

/-! ## decisions -/

inductive RecoveryAction where
  | keep | markOrphaned | leaseExpired
  deriving DecidableEq

structure RecoveryDecision where
  before : SessionState
  after : SessionState
  action : RecoveryAction
  deriving DecidableEq

def leaseExpiryOrphans : SessionState → Bool
  | queued | running | inputRequired | approvalRequired | authenticationRequired | paused
  | orphaned => true
  | completed | failed | cancelled | rejected => false

namespace RecoveryDecision

def afterRestart (record : LifecycleRecord) : RecoveryDecision :=
  match record.state with
  | running => { before := record.state, after := orphaned, action := .markOrphaned }
  | queued | inputRequired | approvalRequired | authenticationRequired | paused | completed | failed
  | cancelled | rejected | orphaned =>
    { before := record.state, after := record.state, action := .keep }

def afterLeaseCheck (record : LifecycleRecord) (lease : Lease) (nowUnixSecs : Nat) :
    RecoveryDecision :=
  if lease.isExpiredAt nowUnixSecs && leaseExpiryOrphans record.state then
    { before := record.state, after := orphaned, action := .leaseExpired }
  else { before := record.state, after := record.state, action := .keep }

end RecoveryDecision

/-! ## runs -/

/-- what happens to a session: a call, a restart of the controller, a check of its lease -/
inductive LifecycleStep where
  | transition (attempt : TransitionAttempt)
  | restart
  | leaseCheck (lease : Lease) (nowUnixSecs : Nat)

/-- A restart rebuilds the machine from its record.  The two recovery steps only decide. -/
def LifecycleStep.run (m : StateMachine) : LifecycleStep → StateMachine
  | .transition attempt => (m.transition attempt).2
  | .restart => .fromRecord m.record
  | .leaseCheck _ _ => m

def LifecycleStep.decision (m : StateMachine) : LifecycleStep → Option RecoveryDecision
  | .transition _ => none
  | .restart => some (.afterRestart m.record)
  | .leaseCheck lease now => some (.afterLeaseCheck m.record lease now)

/-- a decision that changes the state goes through when it is asked for under a fresh key -/
def Accepted (m : StateMachine) (d : RecoveryDecision) (attempt : TransitionAttempt) : Prop :=
  d.after ≠ d.before → ∃ record, (m.transition attempt).1 = .ok record

/-- queued and waiting sessions: their lease can expire, and the machine has no edge to `orphaned` -/
def awaitsRun : SessionState → Bool
  | queued | inputRequired | approvalRequired | authenticationRequired | paused => true
  | _ => false

def LifecycleStep.expiresAwaiting (m : StateMachine) : LifecycleStep → Bool
  | .leaseCheck lease now => lease.isExpiredAt now && awaitsRun m.record.state
  | _ => false

section
variable {m : StateMachine} {d : RecoveryDecision} {attempt : TransitionAttempt}

theorem transition_fresh (hk : m.applied[attempt.idempotencyKey]? = none) :
    (∃ record, (m.transition attempt).1 = .ok record) ↔
      transitionAllowed m.record.state attempt.target = true := by
  obtain ⟨r, hr, _⟩ | ⟨_, hd, e⟩ | ⟨_, ha, e⟩ := m.transition_cases attempt
  · exact absurd (hk.symm.trans hr) (by simp)
  · simp [e, hd]
  · simp [e, ha]

theorem accepted_fresh (hk : m.applied[attempt.idempotencyKey]? = none)
    (ht : attempt.target = d.after) :
    Accepted m d attempt ↔ (d.after ≠ d.before → transitionAllowed m.record.state d.after = true) := by
  rw [Accepted, transition_fresh hk, ht]

/-- the two tables agree on a step iff it does not meet an expired lease of an awaiting session -/
theorem decision_allowed_iff (step : LifecycleStep) (h : step.decision m = some d) :
    (d.after ≠ d.before → transitionAllowed m.record.state d.after = true) ↔
      step.expiresAwaiting m = false := by
  cases step with
  | transition => exact absurd h (by simp [LifecycleStep.decision])
  | restart =>
    obtain rfl := Option.some.inj h
    rw [RecoveryDecision.afterRestart]
    cases m.record.state <;> simp [transitionAllowed, LifecycleStep.expiresAwaiting]
  | leaseCheck lease now =>
    obtain rfl := Option.some.inj h
    rw [RecoveryDecision.afterLeaseCheck, LifecycleStep.expiresAwaiting]
    cases lease.isExpiredAt now with
    | false => simp
    | true => cases m.record.state <;> simp [leaseExpiryOrphans, awaitsRun, transitionAllowed]

end

/-- **Recovery.**  In every run of a session started in `initial`, a recovery step decides something
that the machine accepts under every fresh key, iff it does not meet an expired lease of a queued or
waiting session. -/
theorem recovery_accepted_iff (initial : SessionState) (steps : List LifecycleStep) :
    let m := steps.foldl LifecycleStep.run (.fromRecord (.new initial))
    ∀ (step : LifecycleStep) (d : RecoveryDecision) (attempt : TransitionAttempt),
      step.decision m = some d → m.applied[attempt.idempotencyKey]? = none →
      attempt.target = d.after →
        d.before = m.record.state ∧ (Accepted m d attempt ↔ step.expiresAwaiting m = false) := by
  intro _ step _ _ hd hk ht
  refine ⟨?_, (accepted_fresh hk ht).trans (decision_allowed_iff step hd)⟩
  cases step with
  | transition => exact absurd hd (by simp [LifecycleStep.decision])
  | restart =>
    obtain rfl := Option.some.inj hd
    unfold RecoveryDecision.afterRestart
    split <;> rfl
  | leaseCheck =>
    obtain rfl := Option.some.inj hd
    unfold RecoveryDecision.afterLeaseCheck
    split_ifs <;> rfl

def sampleAttempt (d : RecoveryDecision) : TransitionAttempt :=
  { operationId := "op", idempotencyKey := "key", target := d.after, reason := "recovery" }

/-- a restart meets a running session, which the machine lets become orphaned -/
theorem recovery_accepted_running :
    let m := StateMachine.fromRecord (.new running)
    let d := RecoveryDecision.afterRestart m.record
    d.before = running ∧ d.after = orphaned ∧ Accepted m d (sampleAttempt d) := by
  have h := recovery_accepted_iff running [] .restart _
    (sampleAttempt (.afterRestart (.new running))) rfl (by decide +kernel) rfl
  exact ⟨rfl, rfl, h.2.mpr rfl⟩

/-- The lease of a queued session expires: recovery decides `orphaned`, and the machine refuses. -/
theorem queued_expiry_refused :
    let m := StateMachine.queued
    let d := RecoveryDecision.afterLeaseCheck m.record { acquiredAtUnixSecs := 100, ttl := 10 } 110
    let attempt := sampleAttempt d
    d = { before := queued, after := orphaned, action := .leaseExpired } ∧
      m.applied[attempt.idempotencyKey]? = none ∧
      (m.transition attempt).1 = .error (.invalidTransition queued orphaned
        "queued tasks may run, pause, cancel, or be rejected before execution") := by
  decide +kernel

end Lifecycle

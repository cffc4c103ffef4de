import Orchestraitor.Base.Prim

/-!
# Failure classification and the retry gate (`failures.rs`, `retry_rules.rs`)

`classify` proposes a decision for a failure class, `RetryGate.evaluate` re-asserts the
classification rules on it, and the runner acts on the gated decision.
-/

namespace Delivery
open Base

inductive FailureClass where
  | transientProviderOrNetwork
  | rateLimit
  | toolOrProcess
  | verification
  | mergeConflict
  | invalidAgentOutput
  | policyDenial
  | approvalRequired
  | nonRetriableConfigOrSecurity
  deriving DecidableEq

def defaultRetryDelayMs : Nat := 200

inductive RetryDecision where
  | retry (delayMs : Nat)
  | hold (retryAfterMs : Nat)
  | fixRootCause
  /-- `attempt` is the 1-based number of the run to launch next -/
  | reprompt (attempt : Nat)
  | awaitUser
  | escalate

def classify (cls : FailureClass) (attempt : Nat) (retryAfterMs : Option Nat)
    (maxRepromptAttempts : Nat) : RetryDecision :=
  match cls with
  | .transientProviderOrNetwork | .toolOrProcess => .retry defaultRetryDelayMs
  | .rateLimit =>
    match retryAfterMs with
    | some ms => .hold ms
    | none => .retry defaultRetryDelayMs
  | .verification | .mergeConflict => .fixRootCause
  | .invalidAgentOutput =>
    if maxRepromptAttempts ≤ attempt then .escalate else .reprompt (satAdd32 attempt 1)
  | .approvalRequired => .awaitUser
  | .policyDenial | .nonRetriableConfigOrSecurity => .escalate

inductive IdempotencyProof where
  | checkpointResume
  | provenIdempotent (marker : String)
  | effectsRolledBack (rollbackTxn : String)
  | unproven
  deriving DecidableEq

def RetryGate.evaluate (cls : FailureClass) (proof : IdempotencyProof)
    (decision : RetryDecision) : RetryDecision :=
  if cls = .policyDenial ∨ cls = .nonRetriableConfigOrSecurity then .escalate
  else if cls = .approvalRequired then .awaitUser
  else if (cls = .verification ∨ cls = .mergeConflict) ∨
      (cls = .toolOrProcess ∧ proof = .unproven) then .fixRootCause
  else decision

/-- `classify` proposes, `RetryGate::evaluate` re-asserts; an absent proof is unproven -/
def gated (cls : FailureClass) (attempt : Nat) (retryAfterMs : Option Nat)
    (maxRepromptAttempts : Nat) (proof : Option IdempotencyProof) : RetryDecision :=
  RetryGate.evaluate cls (proof.getD .unproven)
    (classify cls attempt retryAfterMs maxRepromptAttempts)

/-! ## which failures lead to which decision -/

def FailureClass.Retryable (cls : FailureClass) (proof : Option IdempotencyProof) : Prop :=
  cls = .transientProviderOrNetwork ∨ cls = .rateLimit ∨
    (cls = .toolOrProcess ∧ ∃ p, proof = some p ∧ p ≠ .unproven)

section
variable {cls : FailureClass} {attempt : Nat} {ra : Option Nat} {limit : Nat}
  {proof : Option IdempotencyProof}

theorem gated_eq : gated cls attempt ra limit proof = match cls with
    | .transientProviderOrNetwork => .retry defaultRetryDelayMs
    | .rateLimit => (ra.map RetryDecision.hold).getD (.retry defaultRetryDelayMs)
    | .toolOrProcess =>
      if proof.getD .unproven = .unproven then .fixRootCause else .retry defaultRetryDelayMs
    | .verification | .mergeConflict => .fixRootCause
    | .invalidAgentOutput =>
      if limit ≤ attempt then .escalate else .reprompt (satAdd32 attempt 1)
    | .approvalRequired => .awaitUser
    | .policyDenial | .nonRetriableConfigOrSecurity => .escalate := by
  cases cls <;> simp [gated, RetryGate.evaluate, classify]
  cases ra <;> rfl

theorem gated_retry {d : Nat} (h : gated cls attempt ra limit proof = .retry d) :
    cls.Retryable proof := by
  rw [gated_eq] at h
  cases cls with
  | transientProviderOrNetwork => exact .inl rfl
  | rateLimit => exact .inr (.inl rfl)
  | toolOrProcess =>
    cases proof with
    | none => exact absurd h (by simp)
    | some p =>
      by_cases e : p = .unproven
      · simp [e] at h
      · exact .inr (.inr ⟨rfl, p, rfl, e⟩)
  | invalidAgentOutput => dsimp only at h; split_ifs at h
  | _ => exact absurd h (by simp)

theorem gated_hold {ms : Nat} (h : gated cls attempt ra limit proof = .hold ms) :
    cls = .rateLimit := by
  rw [gated_eq] at h
  cases cls with
  | rateLimit => rfl
  | toolOrProcess | invalidAgentOutput => dsimp only at h; split_ifs at h
  | _ => exact absurd h (by simp)

theorem gated_fixRootCause (h : gated cls attempt ra limit proof = .fixRootCause) :
    cls = .verification ∨ cls = .mergeConflict ∨ cls = .toolOrProcess := by
  rw [gated_eq] at h
  cases cls with
  | verification | mergeConflict | toolOrProcess => simp
  | rateLimit => cases ra <;> exact absurd h (by simp)
  | invalidAgentOutput => dsimp only at h; split_ifs at h
  | _ => exact absurd h (by simp)

theorem gated_reprompt {a : Nat} (h : gated cls attempt ra limit proof = .reprompt a) :
    cls = .invalidAgentOutput ∧ attempt < limit := by
  rw [gated_eq] at h
  cases cls with
  | invalidAgentOutput => dsimp only at h; split_ifs at h; exact ⟨rfl, by omega⟩
  | rateLimit => cases ra <;> exact absurd h (by simp)
  | toolOrProcess => dsimp only at h; split_ifs at h
  | _ => exact absurd h (by simp)

theorem gated_awaitUser (h : gated cls attempt ra limit proof = .awaitUser) :
    cls = .approvalRequired := by
  rw [gated_eq] at h
  cases cls with
  | approvalRequired => rfl
  | rateLimit => cases ra <;> exact absurd h (by simp)
  | toolOrProcess | invalidAgentOutput => dsimp only at h; split_ifs at h
  | _ => exact absurd h (by simp)

theorem gated_escalate (h : gated cls attempt ra limit proof = .escalate) :
    cls = .policyDenial ∨ cls = .nonRetriableConfigOrSecurity ∨ cls = .invalidAgentOutput := by
  rw [gated_eq] at h
  cases cls with
  | policyDenial | nonRetriableConfigOrSecurity | invalidAgentOutput => simp
  | rateLimit => cases ra <;> exact absurd h (by simp)
  | toolOrProcess => dsimp only at h; split_ifs at h
  | _ => exact absurd h (by simp)

end

/-! ## the backoff schedule -/

structure RetrySchedule where
  baseDelayMs : Nat := defaultRetryDelayMs
  maxDelayMs : Nat := 10000
  attempt : Nat := 0

/-- `2u64.checked_pow(attempt).unwrap_or(u64::MAX)` -/
def RetrySchedule.factor (s : RetrySchedule) : Nat :=
  if s.attempt < 64 then 2 ^ s.attempt else u64Max

def RetrySchedule.nextDelay (s : RetrySchedule) : Nat :=
  min (satMul64 s.baseDelayMs s.factor) s.maxDelayMs

end Delivery

import Orchestraitor.Base.Pool
import Orchestraitor.Base.History
import Orchestraitor.Daemon.Governance

/-!
# Retries and the circuit breaker (`governance/retry.rs`)

`executeWithRetry` is the retry loop of one call, with the breaker checks, the operation, the recorded
outcomes and the backoffs as calls.  Any number of such loops share the breakers of a scheduler: `serve`
answers their calls one at a time, under a clock that does not go back, and keeps a history of what the
breakers were asked and told.

Times are in nanoseconds.
-/

namespace Daemon
open Base Base.Calls

/-! ## the circuit breaker -/

inductive CircuitState where
  | closed
  | opened (openedAt : Nat)
  | halfOpen
  deriving DecidableEq

structure CircuitBreaker where
  failureThreshold : Nat
  recoveryTimeout : Nat
  state : CircuitState
  consecutiveFailures : Nat

namespace CircuitBreaker

def new (failureThreshold recoveryTimeout : Nat) : CircuitBreaker :=
  { failureThreshold, recoveryTimeout, state := .closed, consecutiveFailures := 0 }

variable (b : CircuitBreaker)

def allows (now : Nat) : Bool × CircuitBreaker :=
  match b.state with
  | .closed | .halfOpen => (true, b)
  | .opened openedAt =>
    if b.recoveryTimeout ≤ now - openedAt then (true, { b with state := .halfOpen }) else (false, b)

def recordSuccess : CircuitBreaker :=
  { b with consecutiveFailures := 0, state := .closed }

def recordFailure (now : Nat) : CircuitBreaker :=
  let failures := satAdd32 b.consecutiveFailures 1
  if b.failureThreshold ≤ failures then
    { b with consecutiveFailures := failures, state := .opened now }
  else { b with consecutiveFailures := failures }

end CircuitBreaker

def defaultCircuitFailureThreshold : Nat := 5
def defaultCircuitRecoveryTimeout : Nat := 30 * 1000000000

def freshBreaker : CircuitBreaker :=
  .new defaultCircuitFailureThreshold defaultCircuitRecoveryTimeout

/-! ## the retry loop -/

inductive Retryability where
  | retriable | notRetriable | needsUserAction
  deriving DecidableEq

def GovernanceError.retryability : GovernanceError → Retryability
  | .transientTransport _ _ => .retriable
  | .restrictedContentBlocked _ | .classificationNotAllowed _ | .prohibitedPath _
  | .arbitraitorEnforcement _ | .arbitraitorPolicy _ | .policyDenial _ _ | .circuitBreakerOpen _
  | .retryBudgetExhausted _ | .cancelled => .notRetriable

/-- `RetryPolicy`, without the jitter -/
structure RetryPolicy where
  maxAttempts : Nat
  baseDelay : Nat
  maxDelay : Nat

/-- the delay before jitter.  The source sleeps the jittered one; the backoff query carries this one, and its
answer only says whether the wait was cancelled. -/
def RetryPolicy.delayForAttempt (policy : RetryPolicy) (attempt : Nat) : Nat :=
  min (min (policy.baseDelay * min (2 ^ (attempt - 1)) u32Max) durationMax) policy.maxDelay

def defaultRetryPolicy : RetryPolicy :=
  { maxAttempts := 5, baseDelay := 200 * 1000000, maxDelay := 30 * 1000000000 }

structure Request where
  call : Nat
  provider : String
  attempt : Nat
  deriving DecidableEq

inductive RetryQuery where
  | breakerAllows (request : Request)
  | operation (request : Request)
  | recordSuccess (request : Request)
  | recordFailure (request : Request)
  /-- the race of the cancellation against the sleep; answered whether it was cancelled -/
  | backoff (request : Request) (delay : Nat)

@[reducible] def RetryAnswer (T : Type) : RetryQuery → Type
  | .breakerAllows _ => Bool
  | .operation _ => Except GovernanceError T
  | .recordSuccess _ => Unit
  | .recordFailure _ => Unit
  | .backoff _ _ => Bool

section loop
variable {T : Type} (policy : RetryPolicy) (call : Nat) (provider : String)

def afterError (attempt : Nat) (again : Calls (RetryAnswer T) (Except GovernanceError T))
    (error : GovernanceError) : Calls (RetryAnswer T) (Except GovernanceError T) :=
  let request : Request := { call, provider, attempt }
  if error.retryability ≠ .retriable then
    .call (.recordFailure request) fun _ => .ret (.error error)
  else if policy.maxAttempts ≤ attempt then
    .call (.recordFailure request) fun _ => .ret (.error (.retryBudgetExhausted provider))
  else
    .call (.recordFailure request) fun _ =>
      .call (.backoff request (policy.delayForAttempt attempt)) fun
      | true => .ret (.error .cancelled)
      | false => again

def attempts : Nat → Nat → Calls (RetryAnswer T) (Except GovernanceError T)
  | 0, _ => .ret (.error (.retryBudgetExhausted provider))
  | left + 1, attempt =>
    .call (.breakerAllows { call, provider, attempt }) fun
    | false => .ret (.error (.circuitBreakerOpen provider))
    | true => .call (.operation { call, provider, attempt }) fun
      | .ok value => .call (.recordSuccess { call, provider, attempt }) fun _ => .ret (.ok value)
      | .error error => afterError policy call provider attempt (attempts left (attempt + 1)) error

def executeWithRetry : Calls (RetryAnswer T) (Except GovernanceError T) :=
  attempts policy call provider policy.maxAttempts 1

end loop

/-! ## the shared scheduler -/

structure Timeline (W T : Type) where
  now : W → Nat
  outcome : W → Request → Except GovernanceError T
  cancelled : W → Request → Bool
  advance : W → RetryQuery → W
  monotone : ∀ w q, now w ≤ now (advance w q)

inductive EventKind where
  | admitted | refused | succeeded | failed
  deriving DecidableEq

structure Event where
  time : Nat
  request : Request
  kind : EventKind
  deriving DecidableEq

structure Scheduler (W : Type) where
  breakers : String → Option CircuitBreaker
  world : W
  history : List Event

namespace Scheduler
variable {W T : Type}

def new (w : W) : Scheduler W := { breakers := fun _ => none, world := w, history := [] }

variable (s : Scheduler W)

def breakerOf (provider : String) : CircuitBreaker :=
  (s.breakers provider).getD freshBreaker

def store (provider : String) (b : CircuitBreaker) : Scheduler W :=
  { s with breakers := Function.update s.breakers provider (some b) }

def log (time : Nat) (request : Request) (kind : EventKind) : Scheduler W :=
  { s with history := s.history ++ [{ time, request, kind }] }

def breakerAllows (now : Nat) (request : Request) : Bool × Scheduler W :=
  let r := (s.breakerOf request.provider).allows now
  (r.1, (s.store request.provider r.2).log now request (if r.1 then .admitted else .refused))

def recordSuccess (s : Scheduler W) (now : Nat) (request : Request) : Scheduler W :=
  match s.breakers request.provider with
  | some b => (s.store request.provider b.recordSuccess).log now request .succeeded
  | none => s.log now request .succeeded

def recordFailure (s : Scheduler W) (now : Nat) (request : Request) : Scheduler W :=
  match s.breakers request.provider with
  | some b => (s.store request.provider (b.recordFailure now)).log now request .failed
  | none => s.log now request .failed

def pass (w : W) : Scheduler W := { s with world := w }

end Scheduler

variable {W T : Type}

def serve (line : Timeline W T) (s : Scheduler W) : (q : RetryQuery) → RetryAnswer T q × Scheduler W
  | .breakerAllows request =>
    let r := s.breakerAllows (line.now s.world) request
    (r.1, r.2.pass (line.advance s.world (.breakerAllows request)))
  | .operation request =>
    (line.outcome s.world request, s.pass (line.advance s.world (.operation request)))
  | .recordSuccess request =>
    ((), (s.recordSuccess (line.now s.world) request).pass
      (line.advance s.world (.recordSuccess request)))
  | .recordFailure request =>
    ((), (s.recordFailure (line.now s.world) request).pass
      (line.advance s.world (.recordFailure request)))
  | .backoff request delay =>
    (line.cancelled s.world request, s.pass (line.advance s.world (.backoff request delay)))

def retryLoops (policy : RetryPolicy) (providers : Nat → String) (w : W) :
    Pool Nat (Scheduler W) (RetryAnswer T) (Except GovernanceError T) :=
  Pool.start (.new w) fun i => executeWithRetry policy i (providers i)

/-! ## what one call does -/

/-- what is known of a call: how often the operation ran, whether it may not run again, and whether the
breaker was asked -/
structure CallView where
  runs : Nat
  finished : Bool
  entered : Bool

def finalError {T : Type} : Except GovernanceError T → Bool
  | .ok _ => false
  | .error error => error.retryability ≠ .retriable

def callMonitor (T : Type) (maxAttempts : Nat) (provider : String) :
    Monitor (RetryAnswer T) CallView where
  permits k
    | .breakerAllows request => request.provider = provider
    | .operation _ => k.runs < maxAttempts ∧ k.finished = false
    | .recordSuccess request | .recordFailure request =>
      request.provider = provider ∧ k.entered = true
    | .backoff _ _ => True
  expects _ _ _ := True
  next k
    | .breakerAllows _, _ => { k with entered := true }
    | .operation _, result => { k with runs := k.runs + 1, finished := k.finished || finalError result }
    | .recordSuccess _, _ | .recordFailure _, _ | .backoff _ _, _ => k

def CallView.start : CallView := { runs := 0, finished := false, entered := false }

section keeps
variable {policy : RetryPolicy} {call : Nat} {provider : String} {k : CallView}

theorem afterError_keeps {attempt : Nat} {again : Calls (RetryAnswer T) (Except GovernanceError T)}
    {error : GovernanceError} (hk : k.entered = true) (hagain : error.retryability = .retriable →
      again.Keeps (callMonitor T policy.maxAttempts provider) (fun _ _ => True) k) :
    (afterError policy call provider attempt again error).Keeps
      (callMonitor T policy.maxAttempts provider) (fun _ _ => True) k := by
  unfold afterError
  have hrecord : (callMonitor T policy.maxAttempts provider).permits k
      (.recordFailure { call, provider, attempt }) := ⟨rfl, hk⟩
  split
  · exact ⟨hrecord, fun _ _ => trivial⟩
  · rename_i hretriable
    split
    · exact ⟨hrecord, fun _ _ => trivial⟩
    · refine ⟨hrecord, fun _ _ => ⟨trivial, fun cancelled _ => ?_⟩⟩
      cases cancelled with
      | true => trivial
      | false => exact hagain (not_not.mp hretriable)

theorem attempts_keeps (left attempt : Nat) (hruns : k.runs + left ≤ policy.maxAttempts)
    (hk : k.finished = false) : (attempts (T := T) policy call provider left attempt).Keeps
      (callMonitor T policy.maxAttempts provider) (fun _ _ => True) k := by
  induction left generalizing attempt k with
  | zero => trivial
  | succ left ih =>
    refine ⟨rfl, fun allowed _ => ?_⟩
    cases allowed with
    | false => trivial
    | true =>
      refine ⟨⟨show k.runs < policy.maxAttempts by omega, hk⟩, fun result _ => ?_⟩
      cases result with
      | ok => exact ⟨⟨rfl, rfl⟩, fun _ _ => trivial⟩
      | error error =>
        refine afterError_keeps rfl fun hretriable => ih (attempt + 1) ?_ ?_
        · show k.runs + 1 + left ≤ policy.maxAttempts
          omega
        · show (k.finished || decide (error.retryability ≠ .retriable)) = false
          rw [hk, hretriable]
          rfl

theorem executeWithRetry_keeps : (executeWithRetry (T := T) policy call provider).Keeps
    (callMonitor T policy.maxAttempts provider) (fun _ _ => True) .start :=
  attempts_keeps policy.maxAttempts 1 (by simp [CallView.start]) rfl

end keeps

end Daemon

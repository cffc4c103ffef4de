import Orchestraitor.Base.CallState
import Orchestraitor.Campaign.RunStore
import Orchestraitor.Campaign.Session
import Orchestraitor.Campaign.Kickoff
import Orchestraitor.Worker.Run

/-!
# The loop runner

`LoopRunner::run`: poll the board, run a campaign pass, supervise the workers in flight, repeat.  The
runner is a program over the calls to its clock, its stores, its workers, the board, the decision
provider and the shutdown channel; the cells of `run` and the mutable fields of the runner are one
`LoopState`, which a failing step leaves as far as it came.

* A duration is a number of nanoseconds; a sum that does not fit `Duration` panics.
* `u64` counters are natural numbers.  Dollars are rationals, and what `daily_spend` answers is left
  to the environment.
* An answer carries the moment at which its call was made, which the runner does not read.
* `notes` is a history of the run that nothing reads.
-/

namespace Campaign
open Base

/-! ## errors and configuration -/

abbrev Usd := ℚ

inductive CampaignError where
  | store (source : SqliteError)
  | spawn (taskId message : String)
  | role (message : String)
  | loop (message : String)
  deriving DecidableEq

inductive Fatal where
  | error (error : CampaignError)
  | panicked
  deriving DecidableEq

structure GuardrailsSettings where
  maxTaskAttempts : Nat
  taskRetryBackoff : Nat
  maxTurnsPerAttempt : Option Nat

/-- with the two fields of `WorkerBudgets` that only the runner reads -/
structure LoopConfig where
  budgets : Worker.WorkerBudgets
  maxConcurrentWorkers : Nat
  dailySpendSoftCapUsd : Usd
  shutdownBudget : Nat
  maxCycles : Option Nat
  minPollInterval : Option Nat
  guardrails : GuardrailsSettings
  kickoff : KickoffSettings

def LoopConfig.validate (config : LoopConfig) : Except CampaignError Unit :=
  if config.maxConcurrentWorkers = 0 then
    .error (.loop "guard-weakening rejected: concurrency cap must be at least 1")
  else if config.budgets.stallTimeout = 0 then
    .error (.loop "guard-weakening rejected: stall timeout must be positive")
  else if config.shutdownBudget = 0 then
    .error (.loop "guard-weakening rejected: shutdown budget must be positive")
  else if config.dailySpendSoftCapUsd < 0 then
    .error (.loop "guard-weakening rejected: daily spend soft cap must be finite and non-negative")
  else if config.budgets.runDeadline = 0 then
    .error (.loop "guard-weakening rejected: worker run deadline must be positive")
  else if config.budgets.maxTurnsPerAttempt = 0 then
    .error (.loop ("guard-weakening rejected: max turns per attempt must be at least 1 " ++
      "(loop.max_turns_per_attempt = 0 would stop every attempt before its first turn)"))
  else if config.guardrails.maxTurnsPerAttempt.any (· ≠ config.budgets.maxTurnsPerAttempt) then
    .error (.loop ("guard-weakening rejected: loop.max_turns_per_attempt must equal the enforced " ++
      "WorkerBudgets bound (one source, no drift)"))
  else if config.minPollInterval = some 0 then
    .error (.loop "guard-weakening rejected: poll cadence must be positive when set")
  else .ok ()

/-- a quarter of the stall window, rounded to the nanosecond, at most a second; a half is rounded up here, by
`div_f64` as the float nearest to it falls, and nothing depends on which -/
def tickInterval (config : LoopConfig) : Nat := min ((config.budgets.stallTimeout + 2) / 4) 1000000000

/-! ## the run -/

inductive StopReason where
  | runBudgetExhausted | spendSoftCap | cycleBudget | shutdown | guardrailsExhausted
  deriving DecidableEq

inductive LoopEvent where
  | passPlanned (decisionId : Nat) (selected : Bool) (noOpReason : Option NoOpReason)
      (taskId : Option String)
  | workerSpawned (runId : Nat) (taskId : String)
  | workerFinished (runId : Nat) (taskId : String) (completed : Bool)
  | workerStallKilled (runId : Nat) (taskId : String)
  | workerTimedOut (runId : Nat) (taskId : String)
  | workerAbortedOnStop (runId : Nat) (taskId : String) (shutdown : Bool)
  | pollFailed (error : CampaignError)
  | backingOff (index delaySecs : Nat)
  | kickoffSkipped (fired : List KickoffCondition)

inductive StopIntent where
  | stall
  | workerTimeout
  | drain (reason : StopReason)
  | drained
  deriving DecidableEq

abbrev Handle := Nat

structure Slot where
  runId : Nat
  taskId : String
  process : Handle
  lastBeatElapsed : Nat
  startedElapsed : Nat
  intent : Option StopIntent
  deriving DecidableEq

structure Counters where
  cycles : Nat := 0
  spawns : Nat := 0
  completed : Nat := 0
  failed : Nat := 0
  stalled : Nat := 0
  timedOut : Nat := 0
  abortedOnStop : Nat := 0
  pollFailures : Nat := 0
  stuck : Nat := 0
  taskBudgetSkips : Nat := 0

structure Reaped where
  event : LoopEvent
  status : RunRowStatus

def Counters.note (c : Counters) (reaped : Reaped) : Counters :=
  match reaped.status with
  | .completed => { c with completed := c.completed + 1 }
  | .failed => { c with failed := c.failed + 1 }
  | .stalled => { c with stalled := c.stalled + 1 }
  | .timedOut => { c with timedOut := c.timedOut + 1 }
  | .abortedShutdown => { c with abortedOnStop := c.abortedOnStop + 1 }
  | .stuck => { c with stuck := c.stuck + 1 }
  | .orphaned | .paused | .running => c

inductive PassEnd where
  | skipped
  | noOp
  | attempted (taskId : String)
  deriving DecidableEq

inductive Note where
  /-- a pass: the ready queue it polled, the tasks excluded at that moment, what it came to -/
  | pass (ready excluded : List String) (ended : PassEnd)
  | stopped (ready : List String)
  /-- an observed signal: the stop declared before it, the time, the drain deadline before and after -/
  | signal (stop : Option StopReason) (elapsed before after : Nat)
  /-- a drain step: its time, the deadline it met, and the slots it left without a kill intent -/
  | drain (elapsed deadline : Nat) (spared : List Slot)
  deriving DecidableEq

structure LoopState where
  backoffIndex : Nat := 0
  nextPassAllowedAt : Nat := 0
  nextPollAllowedAt : Nat := 0
  slots : List Slot := []
  previousReadyIds : List String := []
  previousBlockedIds : List String := []
  slotReleasedSincePass : Bool := false
  lastPassDay : Option Nat
  seenByPass : Nat := 0
  seenByRun : Nat := 0
  counters : Counters := {}
  events : List LoopEvent := []
  stop : Option StopReason := none
  drainReason : Option StopReason := none
  drainDeadline : Nat := durationMax
  signalSourceGone : Bool := false
  notes : List Note := []

structure LoopRunner where
  config : LoopConfig
  routing : RoleRoutingDecision
  invocationId : String
  startUnixSecs : Nat
  taskSelector : Option String
  previousBudgetDay : Option Nat
  eventSource : Bool

/-! ## calls -/

inductive JoinEnd where
  | returned (result : Except Worker.WorkerError Worker.WorkerRun)
  | cancelled
  | panicked

inductive PassPoll where
  | snapshot (snapshot : BoardSnapshot)
  | pollFailed (error : CampaignError)
  | shutdown
  | budgetExpired

inductive TickEnd where
  | elapsed
  | changed
  | sourceGone

inductive Query where
  | now
  | store (op : StoreOp)
  | dailySpend (nowSecs : Nat)
  | record (decision : CampaignDecision)
  | isFinished (process : Handle)
  | join (process : Handle)
  | abort (process : Handle)
  | beat (process : Handle)
  | poll (budgetLeft : Option Nat) (seen : Nat)
  | yieldNow
  /-- `has_changed` on the shutdown channel, `none` when its sender is gone -/
  | hasChanged (seen : Nat)
  | borrowAndUpdate
  | pendingEvents
  | drainEvents (ids : List String)
  | consult (readyTaskIds : List String)
  | start (selected : SelectedTask) (routing : RoleRoutingDecision) (priorDailySpend : Usd)
  | tick (duration seen : Nat)
  | sleep (duration : Nat)

@[reducible] def Reply : Query → Type
  | .now => Nat
  | .store op => Except SqliteError op.Reply
  | .dailySpend _ => Except SqliteError Usd
  | .record _ => Except SqliteError Nat
  | .isFinished _ => Bool
  | .join _ => JoinEnd
  | .beat _ => Option Nat
  | .poll .. => PassPoll
  | .hasChanged _ => Option Bool
  | .borrowAndUpdate => Nat
  | .pendingEvents => List KickoffExternalEvent
  | .consult _ => Except String SelectorDecision
  | .start .. => Except CampaignError Handle
  | .tick .. => TickEnd
  | .abort _ | .yieldNow | .drainEvents _ | .sleep _ => Unit

/-- when a call is made: the time since the start of the loop, and the number of signals sent on the
shutdown channel that its receiver had not seen when `run` was called -/
structure Moment where
  elapsed : Nat
  sent : Nat
  deriving DecidableEq

structure Answer (q : Query) where
  reply : Reply q
  moment : Moment

abbrev RunM := CallState Answer Fatal LoopState

open CallState (get update fail forEach)

def call (q : Query) : RunM (Reply q) := fun s => .call q fun a => .ret (.ok a.reply, s)

theorem meets_call {κ : Type} {m : Calls.Monitor Answer κ} {q : Query}
    {post : Reply q → LoopState → κ → Prop} {err : Fatal → LoopState → κ → Prop} {s : LoopState}
    {k : κ} : (call q).Meets m post err s k ↔
      m.permits k q ∧ ∀ a, m.expects k q a → post a.reply s (m.next k q a) := Iff.rfl

def raise {α : Type} (error : CampaignError) : RunM α := fail (.error error)

def callE {α : Type} (reply : RunM (Except SqliteError α)) : RunM α := do
  match ← reply with
  | .ok a => pure a
  | .error e => raise (.store e)

def storeCall (op : StoreOp) : RunM op.Reply := callE (call (.store op))

def addDuration (a b : Nat) : RunM Nat :=
  if a + b ≤ durationMax then pure (a + b) else fail .panicked

def note (n : Note) : RunM Unit := update fun s => { s with notes := s.notes ++ [n] }

def pushEvent (event : LoopEvent) : RunM Unit :=
  update fun s => { s with events := s.events ++ [event] }

def startRow (request : StartRun) : RunM RunRow := do
  let id ← storeCall (.insertRun request)
  storeCall (.byId id)

namespace LoopRunner

variable (r : LoopRunner)

def nowSecs? (elapsed : Nat) : Option Nat :=
  let now := r.startUnixSecs + elapsed / 1000000000
  if now ≤ u64Max then some now else none

def nowSecs (r : LoopRunner) (elapsed : Nat) : RunM Nat :=
  match r.nowSecs? elapsed with
  | some now => pure now
  | none => raise (.loop "clock overflow: loop start plus elapsed exceeds u64")

/-! ## pacing and kills -/

def paceNoSpawn (elapsed : Nat) : RunM Unit := do
  let s ← get
  let delay := r.config.budgets.backoffDelay s.backoffIndex
  update fun s => { s with nextPassAllowedAt := satAddDuration elapsed delay }
  pushEvent (.backingOff s.backoffIndex (delay / 1000000000))
  update fun s => { s with backoffIndex := satAdd32 s.backoffIndex 1 }

def killWhere (p : Slot → Nat → Bool) (intent : StopIntent) : RunM Unit := do
  let elapsed ← call .now
  let s ← get
  update fun s => { s with
    slots := s.slots.map fun slot => if p slot elapsed then { slot with intent := some intent }
      else slot }
  forEach (s.slots.filter (p · elapsed)) fun slot => do
    let _ ← call (.abort slot.process)

/-! ## reaping -/

def debugClass : Worker.FailureClass → String
  | .attemptBudgetExhausted => "AttemptBudgetExhausted"
  | .replanBudgetExhausted => "ReplanBudgetExhausted"
  | .workerTimeout => "WorkerTimeout"
  | .stalled => "Stalled"
  | .turnBudgetExhausted => "TurnBudgetExhausted"
  | .formatErrorsExhausted => "FormatErrorsExhausted"
  | .toolLoopChurn => "ToolLoopChurn"
  | .noProgress => "NoProgress"
  | .pollBudgetExhausted => "PollBudgetExhausted"
  | .providerError => "ProviderError"
  | .mediationRefused => "MediationRefused"
  | .taskNotCompleted => "TaskNotCompleted"
  | .deliveryFailed => "DeliveryFailed"
  | .subsessionBudgetExhausted => "SubsessionBudgetExhausted"
  | .subsessionDepthExceeded => "SubsessionDepthExceeded"
  | .subsessionFailed => "SubsessionFailed"

def workerErrorText : Worker.WorkerError → String
  | .worktreeRoot reason => s!"worker worktree root is unusable: {reason}"

def kebabFailureClass (debug : String) : String :=
  String.ofList <| debug.toList.zipIdx.flatMap fun (ch, index) =>
    if ch.isUpper then (if 0 < index then ['-'] else []) ++ [ch.toLower] else [ch]

def drainDetail : StopReason → String
  | .shutdown => "shutdown-abort"
  | .runBudgetExhausted => "run-budget-abort"
  | .cycleBudget => "cycle-budget-abort"
  | .spendSoftCap => "spend-cap-abort"
  | .guardrailsExhausted => "guardrails-abort"

def arbitrate (outcome : JoinEnd) (intent : Option StopIntent) : RunRowStatus × String × Bool :=
  match outcome with
  | .returned (.ok run) => match run.status with
    | .completed => (.completed, "natural-completion", true)
    | .failed => (.failed, run.failure.elim "typed-failure" fun failure =>
        s!"{debugClass failure.cls}:{failure.reason}", false)
  | .returned (.error error) => (.failed, s!"worker-loop-unusable: {workerErrorText error}", false)
  | .cancelled => match intent with
    | some .stall => (.stalled, "stall-timeout", false)
    | some .workerTimeout => (.timedOut, "worker-timeout", false)
    | some (.drain reason) => (.abortedShutdown, drainDetail reason, false)
    | some .drained => (.abortedShutdown, "unattributed-drain-abort", false)
    | none => (.failed, "aborted-without-intent", false)
  | .panicked => (.failed, "worker-panicked", false)

def failureClassOf (status : RunRowStatus) (detail : String) : String × Bool :=
  match status with
  | .failed =>
    let cls := String.ofList (detail.toList.takeWhile (· ≠ ':'))
    (kebabFailureClass cls, cls == "NoProgress")
  | .stalled => ("stalled", false)
  | .timedOut => ("worker-timeout", false)
  | _ => ("unknown", false)

def backoffUntil (guardrails : GuardrailsSettings) (now : Nat) : Option Nat :=
  if guardrails.taskRetryBackoff = 0 then none
  else
    let secs := guardrails.taskRetryBackoff / 1000000000
    if now + secs ≤ u64Max then some (now + secs) else none

/-- the durable outcome of a task; `stuck` when the failure exhausted its budget -/
def recordTaskOutcome (taskId : String) (status : RunRowStatus) (failureClass : String)
    (noProgress : Bool) (now : Nat) : RunM (Option RunRowStatus) := do
  let guardrails := r.config.guardrails
  match status with
  | .completed =>
    storeCall (.recordTaskSuccess taskId)
    pure none
  | .failed | .stalled | .timedOut =>
    storeCall (.recordTaskFailure taskId failureClass noProgress (backoffUntil guardrails now))
    if guardrails.maxTaskAttempts = 0 then pure none
    else
      let state ← storeCall (.taskRetryState taskId)
      if state.any (guardrails.maxTaskAttempts ≤ ·.attemptsTotal) then pure (some .stuck)
      else pure none
  | .abortedShutdown | .stuck | .running | .orphaned | .paused => pure none

def settle (runId : Nat) (taskId : String) (status : RunRowStatus) (failureClass : String × Bool)
    (now : Nat) (detail : String) : RunM RunRowStatus := do
  let exhausted ← r.recordTaskOutcome taskId status failureClass.1 failureClass.2 now
  let final := exhausted.getD status
  storeCall (.finish runId final now detail)
  pure final

def reapEvent (slot : Slot) (status : RunRowStatus) (detail : String) (completed : Bool) :
    LoopEvent :=
  match status with
  | .completed | .failed => .workerFinished slot.runId slot.taskId completed
  | .stalled => .workerStallKilled slot.runId slot.taskId
  | .timedOut => .workerTimedOut slot.runId slot.taskId
  | .abortedShutdown => .workerAbortedOnStop slot.runId slot.taskId (detail == "shutdown-abort")
  | .stuck | .running | .orphaned | .paused => .workerFinished slot.runId slot.taskId false

def reapOne (slot : Slot) : RunM Reaped := do
  let outcome ← call (.join slot.process)
  let (status, detail, completed) := arbitrate outcome slot.intent
  let now ← r.nowSecs (← call .now)
  let final ← r.settle slot.runId slot.taskId status (failureClassOf status detail) now detail
  pure { event := reapEvent slot final detail completed, status := final }

def reapFrom (r : LoopRunner) (kept : List Slot) : List Slot → RunM (List Reaped)
  | [] => pure []
  | slot :: rest => do
    if ← call (.isFinished slot.process) then
      update fun s => { s with slots := kept ++ rest }
      let reaped ← r.reapOne slot
      let others ← reapFrom r kept rest
      pure (reaped :: others)
    else reapFrom r (kept ++ [slot]) rest

def reapFinished : RunM (List Reaped) := do
  let s ← get
  r.reapFrom [] s.slots

def recordReaps : RunM Unit := do
  let results ← r.reapFinished
  forEach results fun reaped => update fun s => { s with
    counters := s.counters.note reaped
    slotReleasedSincePass := true
    events := s.events ++ [reaped.event] }

/-! ## supervision -/

def freshBeats (elapsed : Nat) : List Slot → RunM (List Slot × List (Nat × Nat))
  | [] => pure ([], [])
  | slot :: rest => do
    let fresh ← call (.beat slot.process)
    let (slots, beats) ← freshBeats elapsed rest
    match fresh with
    | some beat => pure ({ slot with lastBeatElapsed := elapsed } :: slots, (slot.runId, beat) :: beats)
    | none => pure (slot :: slots, beats)

def supervise : RunM Unit := do
  r.recordReaps
  let elapsed ← call .now
  let s ← get
  let (slots, beats) ← freshBeats elapsed s.slots
  update fun s => { s with slots }
  let beatSecs ← r.nowSecs elapsed
  forEach beats fun (runId, beat) => storeCall (.heartbeat runId beat beatSecs)
  killWhere (fun slot elapsed => slot.intent.isNone &&
    r.config.budgets.stallTimeout ≤ elapsed - slot.lastBeatElapsed) .stall
  killWhere (fun slot elapsed => slot.intent.isNone &&
    r.config.budgets.workerTimeout ≤ elapsed - slot.startedElapsed) .workerTimeout
  r.recordReaps

def spared (s : LoopState) : List Slot := s.slots.filter (·.intent.isNone)

def drainStep : RunM Unit := do
  let elapsed ← call .now
  let s ← get
  if s.slots.isEmpty || s.drainDeadline ≤ elapsed then
    let intent := s.drainReason.elim .drained .drain
    killWhere (fun slot _ => slot.intent.isNone) intent
    r.recordReaps
    if !(← get).slots.isEmpty then
      let deadline ← addDuration elapsed r.config.shutdownBudget
      update fun s => { s with drainDeadline := deadline }
  note (.drain elapsed s.drainDeadline (spared (← get)))

/-! ## signals -/

inductive SignalEffect where
  | begin
  | shortCircuit

def convergeDrain (s : LoopState) : LoopState :=
  { s with drainReason := s.drainReason.map fun _ => .shutdown }

def applySignal (elapsed : Nat) : RunM SignalEffect := do
  let s ← get
  match s.stop with
  | some .shutdown =>
    update fun s => { s with drainDeadline := elapsed }
    pure .shortCircuit
  | some _ =>
    update convergeDrain
    let deadline ← addDuration elapsed r.config.shutdownBudget
    update fun s => { s with drainDeadline := min s.drainDeadline deadline }
    pure .begin
  | none =>
    update convergeDrain
    let deadline ← addDuration elapsed r.config.shutdownBudget
    update fun s => { s with drainDeadline := deadline }
    pure .begin

/-- a tick, or a signal that starts, preempts or short-circuits the drain -/
def waitTick : RunM Unit := do
  let s ← get
  match ← call (.tick (tickInterval r.config) s.seenByRun) with
  | .elapsed => pure ()
  | .sourceGone => update fun s => { s with signalSourceGone := true }
  | .changed =>
    let seen ← call .borrowAndUpdate
    update fun s => { s with seenByRun := seen }
    let elapsed ← call .now
    match ← r.applySignal elapsed with
    | .shortCircuit => pure ()
    | .begin => update fun s =>
      if s.stop.isNone then { s with stop := some .shutdown, drainReason := some .shutdown } else s
    note (.signal s.stop elapsed s.drainDeadline (← get).drainDeadline)

def declareStop (reason : StopReason) (elapsed : Nat) : RunM Unit := do
  let deadline ← addDuration elapsed r.config.shutdownBudget
  update fun s => { s with
    stop := some reason, drainReason := some reason, drainDeadline := deadline }

def shutdownFromPass : RunM Unit := do
  let s ← get
  let elapsed ← call .now
  r.declareStop .shutdown elapsed
  note (.signal s.stop elapsed s.drainDeadline (← get).drainDeadline)

/-! ## the pass -/

structure TaskExclusions where
  excluded : List String
  budgetSkips : List (String × TaskSkipReason)

def TaskExclusions.scan (guardrails : GuardrailsSettings) (now : Nat) (x : TaskExclusions)
    (row : TaskRetryState) : TaskExclusions :=
  if x.excluded.contains row.taskId then x
  else if 0 < guardrails.maxTaskAttempts ∧ guardrails.maxTaskAttempts ≤ row.attemptsTotal then
    { excluded := x.excluded ++ [row.taskId]
      budgetSkips := x.budgetSkips ++ [(row.taskId, .attemptBudget)] }
  else if guardrails.taskRetryBackoff ≠ 0 ∧ row.backoffUntilSecs.any (now < ·) then
    { excluded := x.excluded ++ [row.taskId]
      budgetSkips := x.budgetSkips ++ [(row.taskId, .backoff)] }
  else x

def excludedTasks (now : Nat) : RunM TaskExclusions := do
  let s ← get
  let rows ← storeCall (.runsForInvocation r.invocationId)
  let own : TaskExclusions :=
    { excluded := s.slots.map (·.taskId) ++ rows.map (·.taskId), budgetSkips := [] }
  let guardrails := r.config.guardrails
  if 0 < guardrails.maxTaskAttempts || guardrails.taskRetryBackoff ≠ 0 then
    let states ← storeCall .allTaskRetryStates
    pure (states.foldl (TaskExclusions.scan guardrails now) own)
  else pure own

def budgetWindowReset (now : Nat) : RunM Bool := do
  let s ← get
  let day := now - now % 86400
  update fun s => { s with lastPassDay := some day }
  pure (s.lastPassDay.any (day ≠ ·))

inductive KickoffGate where
  | proceed (peekedIds : List String)
  | skipped (observation : KickoffObservation)

def freshReady (snapshot : BoardSnapshot) (excluded : List String) : List ReadyItem :=
  snapshot.ready.filter fun item => !excluded.contains item.taskId

def peekEvents : RunM (List KickoffExternalEvent) := do
  if r.eventSource && r.config.kickoff.externalEvent && (← get).slots.isEmpty then
    call .pendingEvents
  else pure []

def kickoffGate (now : Nat) (snapshot : BoardSnapshot) (excluded : List String) :
    RunM KickoffGate := do
  let s ← get
  let inFlight := !s.slots.isEmpty
  let peeked ← r.peekEvents
  let reset ← budgetWindowReset now
  let observation : KickoffObservation :=
    { readyIds := ((freshReady snapshot excluded).map (·.taskId)).dedup
      previousReadyIds := s.previousReadyIds
      previousBlockedIds := s.previousBlockedIds
      slotReleased := s.slotReleasedSincePass
      budgetWindowReset := reset
      externalEvents := peeked }
  update fun s => { s with
    slotReleasedSincePass := false
    previousReadyIds := observation.readyIds
    previousBlockedIds := snapshot.blockedCandidates.map (·.taskId) }
  if !inFlight && !(evaluate r.config.kickoff observation).kickOff then
    pure (.skipped observation)
  else pure (.proceed (peeked.map (·.id)))

def kickOffRationale (verdict : KickoffVerdict) (observation : KickoffObservation) : String :=
  let fired := if verdict.fired.isEmpty then "none"
    else ",".intercalate (verdict.fired.map (·.asStr))
  "kick-off gate: no campaign in flight and no armed condition mandated a spawn (conditions " ++
    s!"held: {fired}; ready queue: {observation.readyIds.length} item(s); slot released: " ++
    s!"{observation.slotReleased}; budget window reset: {observation.budgetWindowReset}; external " ++
    s!"events: {observation.externalEvents.length})"

def recordKickoffSkip (elapsed : Nat) (observation : KickoffObservation)
    (budgetSkips : List (String × TaskSkipReason)) : RunM Unit := do
  let verdict := evaluate r.config.kickoff observation
  let id ← callE (call (.record
    { kind := .noOp
      noOpReason := some .kickoffGate
      selected := none
      role := r.routing.role
      provider := r.routing.provider
      model := r.routing.model
      precedencePath := "kick-off-gate"
      fallbackReason := r.routing.fallbackReason
      workerArgs := []
      rationale := appendBudgetSkipsStr (kickOffRationale verdict observation) budgetSkips
      alternatives := []
      blockedGraph := []
      skipped := [] }))
  pushEvent (.passPlanned id false (some .kickoffGate) none)
  pushEvent (.kickoffSkipped verdict.fired)
  r.paceNoSpawn elapsed

def consultTaskSelection (readyTaskIds : List String) :
    RunM (Option (String × Except String SelectorDecision)) := do
  match r.taskSelector with
  | none => pure none
  | some providerId =>
    if readyTaskIds.isEmpty then pure none
    else
      let result ← call (.consult readyTaskIds)
      pure (some (providerId, result))

def planPass (snapshot : BoardSnapshot) (budgetSkips : List (String × TaskSkipReason)) :
    RunM (Nat × CampaignDecision) := do
  let ordered := computeSelection snapshot.ready snapshot.openItems
  let consulted ← r.consultTaskSelection (ordered.map (·.taskId))
  let decision := appendBudgetSkips (campaignDecision snapshot r.routing consulted) budgetSkips
  let id ← callE (call (.record decision))
  pure (id, decision)

def addSlot (slot : Slot) (s : LoopState) : LoopState :=
  { s with
    slots := s.slots ++ [slot]
    counters := { s.counters with spawns := s.counters.spawns + 1 }
    backoffIndex := 0
    nextPassAllowedAt := slot.startedElapsed
    events := s.events ++ [.workerSpawned slot.runId slot.taskId] }

def spawnFailed (runId : Nat) (taskId message : String) (now : Nat) : RunM Unit := do
  let final ← r.settle runId taskId .failed ("spawn-failed", false) now message
  update fun s => { s with
    counters := if final = .stuck then { s.counters with stuck := s.counters.stuck + 1 }
      else { s.counters with failed := s.counters.failed + 1 }
    events := s.events ++ [.workerFinished runId taskId false]
    previousReadyIds := [taskId] }
  r.paceNoSpawn (← call .now)

def spawnSelected (decisionId : Nat) (selected : SelectedTask) (elapsed now : Nat)
    (attempted : Note) : RunM Unit := do
  let spend ← callE (call (.dailySpend now))
  let row ← startRow
    { invocationId := r.invocationId
      decisionId
      taskId := selected.taskId
      repo := selected.repo
      number := selected.number
      startedAtSecs := now }
  note attempted
  match ← call (.start selected r.routing spend) with
  | .ok process => update (addSlot
      { runId := row.id, taskId := selected.taskId, process, lastBeatElapsed := elapsed,
        startedElapsed := elapsed, intent := none })
  | .error (.spawn _ message) => r.spawnFailed row.id selected.taskId message now
  | .error error => raise error

/-- the events that the gate has seen are consumed with the decision -/
def drainPeeked (peekedIds : List String) : RunM Unit := do
  if !peekedIds.isEmpty && r.eventSource then
    let _ ← call (.drainEvents peekedIds)

def spawnOrPace (decisionId : Nat) (selected : Option SelectedTask) (elapsed now : Nat)
    (notePass : PassEnd → Note) : RunM Unit := do
  match selected with
  | some selected =>
    r.spawnSelected decisionId selected elapsed now (notePass (.attempted selected.taskId))
  | none =>
    note (notePass .noOp)
    r.paceNoSpawn elapsed

def planAndSpawn (elapsed now : Nat) (snapshot : BoardSnapshot) : RunM Unit := do
  let exclusions ← r.excludedTasks now
  update fun s => { s with counters := { s.counters with
    taskBudgetSkips := s.counters.taskBudgetSkips + exclusions.budgetSkips.length } }
  let gate ← r.kickoffGate now snapshot exclusions.excluded
  let notePass := Note.pass (snapshot.ready.map (·.taskId)) exclusions.excluded
  match gate with
  | .skipped observation =>
    note (notePass .skipped)
    r.recordKickoffSkip elapsed observation exclusions.budgetSkips
  | .proceed peekedIds =>
    let fresh := { snapshot with ready := freshReady snapshot exclusions.excluded }
    let (decisionId, decision) ← r.planPass fresh exclusions.budgetSkips
    pushEvent (.passPlanned decisionId decision.selected.isSome decision.noOpReason
      (decision.selected.map (·.taskId)))
    r.drainPeeked peekedIds
    r.spawnOrPace decisionId decision.selected elapsed now notePass

def afterSnapshot (snapshot : BoardSnapshot) : RunM Bool := do
  if r.config.budgets.runBudget ≤ (← call .now) then
    note (.stopped (snapshot.ready.map (·.taskId)))
    r.declareStop .runBudgetExhausted (← call .now)
    pure false
  else
    let _ ← call .yieldNow
    let _ ← call .yieldNow
    if (← call (.hasChanged (← get).seenByPass)) = some true then
      note (.stopped (snapshot.ready.map (·.taskId)))
      r.shutdownFromPass
      pure true
    else
      let elapsed ← call .now
      let now ← r.nowSecs elapsed
      r.planAndSpawn elapsed now snapshot
      pure false

def gatedOff (s : LoopState) (elapsed : Nat) : Bool :=
  r.config.maxConcurrentWorkers ≤ s.slots.length || elapsed < s.nextPassAllowedAt ||
    elapsed < s.nextPollAllowedAt

def pass (elapsed : Nat) : RunM Bool := do
  let s ← get
  if r.gatedOff s elapsed then pure false
  else
    update fun s => { s with
      counters := { s.counters with cycles := s.counters.cycles + 1 }
      nextPollAllowedAt := satAddDuration (max s.nextPollAllowedAt elapsed)
        (r.config.minPollInterval.getD 0) }
    let before ← call .now
    let budget := r.config.budgets.runBudget
    let budgetLeft := if before ≤ budget then some (budget - before) else none
    match ← call (.poll budgetLeft s.seenByPass) with
    | .snapshot snapshot => r.afterSnapshot snapshot
    | .pollFailed error =>
      update fun s => { s with
        counters := { s.counters with pollFailures := s.counters.pollFailures + 1 }
        events := s.events ++ [.pollFailed error] }
      r.paceNoSpawn (← call .now)
      pure false
    | .shutdown =>
      let seen ← call .borrowAndUpdate
      update fun s => { s with seenByPass := seen }
      r.shutdownFromPass
      pure true
    | .budgetExpired =>
      r.declareStop .runBudgetExhausted (← call .now)
      pure false

/-! ## the loop -/

def proceed (elapsed now : Nat) : RunM Unit := do
  if r.config.budgets.runBudget ≤ elapsed then r.declareStop .runBudgetExhausted elapsed
  else
    let daily ← callE (call (.dailySpend now))
    if r.config.dailySpendSoftCapUsd ≤ daily then
      -- in-flight runs finish on their own; only a signal bounds this drain
      update fun s => { s with
        stop := some .spendSoftCap, drainReason := some .spendSoftCap, drainDeadline := durationMax }
    else if r.config.maxCycles.any (· ≤ (← get).counters.cycles) then
      r.declareStop .cycleBudget elapsed
    else if ← r.pass elapsed then
      -- the same send must not be observed again as a second signal
      let seen ← call .borrowAndUpdate
      update fun s => { s with seenByRun := seen }

def waitRound : RunM Unit := do
  if (← get).signalSourceGone then
    let _ ← call (.sleep (tickInterval r.config))
  else r.waitTick

def round : RunM Bool := do
  let elapsed ← call .now
  let now ← r.nowSecs elapsed
  r.supervise
  if (← get).stop.isSome then
    r.drainStep
    if (← get).slots.isEmpty then pure true
    else
      r.waitRound
      pure false
  else
    r.proceed elapsed now
    r.waitRound
    pure false

structure LoopSummary where
  stopReason : StopReason
  counters : Counters
  elapsedSecs : Nat
  finalBudgetDay : Option Nat
  events : List LoopEvent

def sweepOne (slot : Slot) : RunM Unit := do
  let _ ← call (.join slot.process)
  let stamp := min ((r.nowSecs? (← call .now)).getD i64Max) i64Max
  let _ ← call (.store (.finish slot.runId .abortedShutdown stamp "unattributed-drain-abort"))
  update fun s => { s with
    counters := { s.counters with abortedOnStop := s.counters.abortedOnStop + 1 }
    events := s.events ++ [.workerAbortedOnStop slot.runId slot.taskId false] }

def sweep : RunM Unit := do
  killWhere (fun slot _ => slot.intent.isNone) .drained
  let s ← get
  update fun s => { s with slots := [] }
  forEach s.slots r.sweepOne

def summary : RunM LoopSummary := do
  let elapsed ← call .now
  let s ← get
  pure
    { stopReason := s.stop.getD .shutdown
      counters := s.counters
      elapsedSecs := elapsed / 1000000000
      finalBudgetDay := s.lastPassDay
      events := s.events }

def conclude (result : Except Fatal Unit) : RunM LoopSummary := do
  match result with
  | .ok () => summary
  | .error (.error error) =>
    if !(← get).slots.isEmpty then r.sweep
    raise error
  | .error .panicked => fail .panicked

def initial : LoopState := { lastPassDay := r.previousBudgetDay }

def roundStep (s : LoopState) :
    Calls Answer (LoopState ⊕ (Except Fatal Unit × LoopState)) :=
  r.round s >>= fun res => match res.1 with
    | .ok false => .ret (.inl res.2)
    | .ok true => .ret (.inr (.ok (), res.2))
    | .error e => .ret (.inr (.error e, res.2))

def run (n : Nat) :
    Calls Answer (LoopState ⊕ (Except Fatal LoopSummary × LoopState)) :=
  match r.config.validate with
  | .error e => .ret (.inr (.error (.error e), r.initial))
  | .ok () => Calls.rounds r.roundStep n r.initial >>= fun
    | .inl s => .ret (.inl s)
    | .inr (result, s) => r.conclude result s >>= fun ended => .ret (.inr ended)

theorem run_keeps {κ : Type} {m : Calls.Monitor Answer κ} {k : κ} {I : LoopState → κ → Prop}
    {E : Except Fatal Unit → LoopState → κ → Prop}
    {F : Except Fatal LoopSummary → LoopState → κ → Prop}
    (hinvalid : ∀ e, F (.error (.error e)) r.initial k) (hround : ∀ s k, I s k → r.round.Meets m
      (fun done s' k' => if done then E (.ok ()) s' k' else I s' k') (fun e => E (.error e)) s k)
      (hend : ∀ result s k, E result s k → (r.conclude result).Meets m (fun summary => F (.ok
      summary)) (fun e => F (.error e)) s k) (n : Nat) (hI : I r.initial k) :
    (r.run n).Keeps m (fun res k' => match res with
      | .inl s => I s k'
      | .inr (result, s) => F result s k') k := by
  have hrounds : (Calls.rounds r.roundStep n r.initial).Keeps m
      (fun res k' => res.elim (I · k') (fun ended => E ended.1 ended.2 k')) k := by
    refine Calls.keeps_rounds (fun s k hs => ?_) n hI
    unfold roundStep
    rw [Calls.keeps_bind]
    refine Calls.Keeps.mono (hround s k hs) ?_
    rintro ⟨result, s'⟩ k' h
    cases result with
    | error => exact h
    | ok done => cases done <;> exact h
  unfold run
  split
  · exact hinvalid _
  rw [Calls.keeps_bind]
  refine hrounds.mono ?_
  rintro (s | ⟨result, s⟩) k' h
  · exact h
  · rw [Calls.keeps_bind]
    refine Calls.Keeps.mono (hend result s k' h) ?_
    rintro ⟨ended, s'⟩ k'' h'
    cases ended <;> exact h'

end LoopRunner

end Campaign

import Orchestraitor.Base.Ordered
import Orchestraitor.Worker.Guardrails

/-!
# The worker loop (`budget.rs`, `model.rs`, `run.rs`, `subsession.rs`)

Every loop is followed for the number of rounds its budget allows and answers `none` if they were not
enough.
-/

namespace Worker
open Base

/-! ## budgets -/

structure WorkerBudgets where
  maxAttempts : Nat
  maxReplans : Nat
  workerTimeout : Nat
  stallTimeout : Nat
  retryBaseDelay : Nat
  retryMaxDelay : Nat
  maxProviderRetries : Nat
  runBudget : Nat
  maxTurnsPerAttempt : Nat
  maxConsecutiveFormatErrors : Nat

namespace WorkerBudgets

def bootstrapDefaults : WorkerBudgets :=
  { maxAttempts := 3
    maxReplans := 2
    workerTimeout := 45 * 60 * 1000000000
    stallTimeout := 10 * 60 * 1000000000
    retryBaseDelay := 10 * 1000000000
    retryMaxDelay := 5 * 60 * 1000000000
    maxProviderRetries := 3
    runBudget := 4 * 60 * 60 * 1000000000
    maxTurnsPerAttempt := 100
    maxConsecutiveFormatErrors := 3 }

def runDeadline (budgets : WorkerBudgets) : Nat := min budgets.workerTimeout budgets.runBudget

def backoffDelay (budgets : WorkerBudgets) (retryIndex : Nat) : Nat :=
  min (min (budgets.retryBaseDelay * 2 ^ min retryIndex 31) durationMax) budgets.retryMaxDelay

end WorkerBudgets

/-! ## results -/

inductive RunStatus where
  | completed | failed
  deriving DecidableEq

inductive FailureClass where
  | attemptBudgetExhausted | replanBudgetExhausted | workerTimeout | stalled | turnBudgetExhausted
  | formatErrorsExhausted | toolLoopChurn | noProgress | pollBudgetExhausted | providerError
  | mediationRefused | taskNotCompleted | deliveryFailed | subsessionBudgetExhausted
  | subsessionDepthExceeded | subsessionFailed
  deriving DecidableEq

structure TypedFailure where
  cls : FailureClass
  reason : String
  deriving DecidableEq

structure UsageTotals where
  inputTokens : Nat
  outputTokens : Nat

structure RoleRoutingEvidence where
  role : String
  provider : String
  model : String
  precedencePath : String
  fallbackReason : Option String

inductive SubsessionEvent where
  | outcome (toolId role provider model : String) (status : RunStatus) (usage : UsageTotals)
      (routing : RoleRoutingEvidence) (effort : Option ReasoningEffort)
      (maxSummaryBytes : Option Nat) (structuredSummary : Option Bool)
  | refusal (toolId reason : String)

structure WorkerTask where
  id : String
  slug : String
  description : String

structure WorkerConfig where
  providerId : String
  modelId : String
  budgets : WorkerBudgets
  guardrails : GuardrailsConfig
  costTracking : Option CostAttribution
  tools : List ToolDefinition
  subsessionDepth : Nat
  subsessionAllowedInternal : List InternalTool
  subsessionRouting : OrdMap String RoleRoutingEvidence
  effort : Option ReasoningEffort
  structuredSummary : Bool
  thinkEnabled : Bool
  recordPayloads : Bool
  worktreeBranch : Option String

def WorkerConfig.new (providerId modelId : String) (budgets : WorkerBudgets) : WorkerConfig :=
  { providerId, modelId, budgets
    guardrails := .bootstrapDefaults
    costTracking := none
    tools := []
    subsessionDepth := 0
    subsessionAllowedInternal := []
    subsessionRouting := ∅
    effort := none
    structuredSummary := false
    thinkEnabled := true
    recordPayloads := false
    worktreeBranch := none }

/-- the counters of a run; `turns` and `modelCalls` are `u32`, `WithinBudgets.counters_fit` says when they
fit -/
structure RunState where
  turns : Nat
  modelCalls : Nat
  usage : UsageTotals
  subsessionEvents : List SubsessionEvent
  started : Nat
  worktreeRoot : String
  project : String
  repository : String
  sessionId : String
  modelCallSequence : Nat

inductive AttemptOutcome where
  | completed (summary : String) (delivery : DeliveryOutcome)
  | failed (failure : TypedFailure)
  deriving DecidableEq

structure WorkerRun where
  taskId : String
  status : RunStatus
  exitCode : Int
  summary : Option String
  failure : Option TypedFailure
  delivery : Option DeliveryOutcome
  attempts : Nat
  replans : Nat
  turns : Nat
  modelCalls : Nat
  usage : UsageTotals
  untrustedWrites : List String
  receipts : List ToolReceipt
  subsessionEvents : List SubsessionEvent
  reasoningEvents : List ReasoningRecord
  /-- history: how each attempt ended, in order -/
  endings : List AttemptOutcome

inductive WorkerError where
  | worktreeRoot (reason : String)

/-- functions of other modules that the loop calls on its texts -/
structure Helpers where
  parseAction : String → Except ActionRejection WorkerAction
  containsSecretShaped : String → Bool
  systemPrompt : WorkerConfig → String
  taskPrompt : WorkerTask → Option String → Option String → String
  forReplan : List ToolReceipt → List String → Option String

/-! ## one model call -/

def collectFrom (text : String) (usage : Option TokenCount) (completed : Bool) :
    List (Option ModelEvent) → Except (TypedFailure × Option TokenCount) (String × Option TokenCount)
  | [] => if completed then .ok (text, usage)
    else .error (⟨.providerError, "provider-invalid-event"⟩, usage)
  | none :: _ => .error (⟨.providerError, "provider-invalid-event"⟩, usage)
  | some event :: rest => match event with
    | .started => collectFrom text usage completed rest
    | .completed => collectFrom text usage true rest
    | .textDelta delta => collectFrom (text ++ delta) usage completed rest
    | .usage tokenCount => collectFrom text (some tokenCount) completed rest
    | .toolCall => .error (⟨.providerError, "provider-unexpected-tool-call"⟩, usage)

def collectEvents (events : List (Option ModelEvent)) :
    Except (TypedFailure × Option TokenCount) (String × Option TokenCount) :=
  collectFrom "" none false events

variable (config : WorkerConfig)

def buildRequest (messages : List ModelMessage) : ModelRequest :=
  { providerId := config.providerId, modelId := config.modelId, messages
    maxOutputTokens := some 8192, effort := config.effort }

def RunState.countCall (state : RunState) : RunState :=
  { state with modelCalls := state.modelCalls + 1 }

def RunState.accrueUsage (state : RunState) (inputTokens outputTokens : Nat) : RunState :=
  { state with usage :=
    { inputTokens := (state.usage.inputTokens + inputTokens) % 2 ^ 64
      outputTokens := (state.usage.outputTokens + outputTokens) % 2 ^ 64 } }

def RunState.accumulateUsage (state : RunState) (usage : Option TokenCount) : RunState :=
  state.accrueUsage (usage.elim 0 (·.inputTokens)) (usage.elim 0 (·.outputTokens))

def callLabel (completed : Bool) : String :=
  if completed then "worker-bootstrap" else "worker-bootstrap-failed"

def recordCallCost (request : ModelRequest) (usage : Option TokenCount) (completed : Bool)
    (state : RunState) : Calls Answer RunState :=
  match config.costTracking with
  | none => .ret state
  | some attribution =>
    let callNumber := state.modelCallSequence + 1
    .call (.recordCost
      { model := request.modelId, provider := request.providerId, attribution
        inputTokens := usage.elim 0 (·.inputTokens)
        outputTokens := usage.elim 0 (·.outputTokens)
        reasoningTokens := usage.elim 0 (·.reasoningTokens)
        cacheReadTokens := usage.elim 0 (·.cachedTokens)
        requestId := attribution.session ++ "/call-" ++ toString callNumber
        routingDecision := callLabel completed }) fun _ =>
    .ret { state with modelCallSequence := callNumber }

def callModelStep (request : ModelRequest) (s : Nat × RunState) :
    Calls Answer ((Nat × RunState) ⊕ (Except TypedFailure String × RunState)) :=
  let state := s.2.countCall
  .call (.stream request) fun
  | .ok events => match collectEvents events with
    | .ok (text, usage) =>
      recordCallCost config request usage true (state.accumulateUsage usage) >>= fun state =>
      .ret (.inr (.ok text, state))
    | .error (failure, usage) =>
      recordCallCost config request usage false state >>= fun state =>
      .ret (.inr (.error failure, state))
  | .error .requestFailed =>
    recordCallCost config request none false state >>= fun state =>
    if config.budgets.maxProviderRetries ≤ s.1 then
      .ret (.inr (.error ⟨.providerError, "provider-request-failed"⟩, state))
    else .call (.sleep (config.budgets.backoffDelay s.1)) fun _ => .ret (.inl (s.1 + 1, state))
  | .error .invalidEvent =>
    recordCallCost config request none false state >>= fun state =>
    .ret (.inr (.error ⟨.providerError, "provider-invalid-event"⟩, state))
  | .error .capabilityUnavailable =>
    recordCallCost config request none false state >>= fun state =>
    .ret (.inr (.error ⟨.providerError, "provider-capability-unavailable"⟩, state))

def callModel (messages : List ModelMessage) (state : RunState) :
    Calls Answer (Option (Except TypedFailure String × RunState)) :=
  Calls.loop (callModelStep config (buildRequest config messages))
    (config.budgets.maxProviderRetries + 1) (0, state)

/-! ## sub-sessions, seen from the parent -/

structure SubsessionParent where
  worktreeRoot : String
  remaining : Nat
  depth : Nat
  role : String
  project : String
  repository : String
  sessionId : String
  spawnSeq : Nat
  costTracking : Option CostAttribution

structure SubsessionOutcome where
  toolId : String
  status : RunStatus
  summary : Option String
  failure : Option TypedFailure
  usage : UsageTotals
  receipts : List ToolReceipt
  untrustedWrites : List String
  routing : RoleRoutingEvidence

inductive SubsessionError where
  | notSubagent (toolId : String)
  | worktreeRoot (reason : String)

def SubsessionError.text : SubsessionError → String
  | .notSubagent toolId => "tool `" ++ toolId ++ "` is not a subagent tool"
  | .worktreeRoot reason => "sub-session worktree root is unusable: " ++ reason

structure Seams where
  helpers : Helpers
  deliver : DeliveryRequest → Calls Answer (Except String DeliveryOutcome)
  spawn : SubsessionParent → ToolDefinition → Option String → RoleRoutingEvidence →
    Calls Answer (Option (Except SubsessionError SubsessionOutcome))

def renderSubsessionSummary (toolId : String) (maxResultBytes : Nat) (outcome : SubsessionOutcome) :
    String :=
  let rendered := match outcome.summary with
    | some summary =>
      let head := "[subsession '" ++ toolId ++ "' completed]\n"
      if head.utf8ByteSize + summary.utf8ByteSize ≤ maxResultBytes then head ++ summary
      else head ++ truncateBytes summary
        (maxResultBytes - (head.utf8ByteSize + truncationMarker.utf8ByteSize)) ++ truncationMarker
    | none =>
      let head := "[subsession '" ++ toolId ++ "' failed: "
      let reason := outcome.failure.elim "none" (·.reason)
      if head.utf8ByteSize + reason.utf8ByteSize < maxResultBytes then head ++ reason ++ "]"
      else head ++ truncateBytes reason
        (maxResultBytes - (head.utf8ByteSize + 1 + truncationMarker.utf8ByteSize)) ++ "]" ++
          truncationMarker
  if maxResultBytes < rendered.utf8ByteSize then
    String.ofList (takeBytes (maxResultBytes - truncationMarker.utf8ByteSize) rendered.toList) ++
      truncationMarker
  else rendered

def refuseSubagent (executor : Executor) (state : RunState) (toolId reason observation : String) :
    String × Executor × RunState :=
  (observation, executor.recordSubagentRefusal toolId reason,
    { state with subsessionEvents := state.subsessionEvents ++ [.refusal toolId reason] })

def acceptSubagent (tool : ToolDefinition) (role : String) (evidence : RoleRoutingEvidence)
    (executor : Executor) (state : RunState) (outcome : SubsessionOutcome) :
    String × Executor × RunState :=
  let executor := executor.recordSubagentCompletion tool.id (outcome.status = .completed)
  let state := { state with subsessionEvents := state.subsessionEvents ++
    [SubsessionEvent.outcome tool.id role evidence.provider evidence.model outcome.status outcome.usage
      outcome.routing tool.effort tool.maxSummaryBytes tool.structuredSummary] }
  (renderSubsessionSummary tool.id tool.budget.maxResultBytes outcome,
    outcome.untrustedWrites.foldl Executor.recordChildWrite executor,
    state.accrueUsage outcome.usage.inputTokens outcome.usage.outputTokens)

def dispatchSubagent (seams : Seams) (config : WorkerConfig) (executor : Executor)
    (state : RunState) (toolId : String) (question : Option String) :
    Calls Answer (Option (String × Executor × RunState)) :=
  if 0 < config.subsessionDepth then
    .ret (some (refuseSubagent executor state toolId "subsession-depth-exceeded"
      "tool call refused: subsession-depth-exceeded"))
  else match config.tools.find? (·.id = toolId) with
    | none => .ret (some (refuseSubagent executor state toolId "tool-not-allowed"
        "tool call refused: tool-not-allowed"))
    | some tool => match tool.mechanism with
      | .command _ => .ret (some (refuseSubagent executor state toolId "not-a-subagent-tool"
          "tool call refused: not-a-subagent-tool"))
      | .subagent role _ _ => match config.subsessionRouting[role]? with
        | none => .ret (some (refuseSubagent executor state toolId "subsession-role-unrouted"
            ("tool call refused: subsession-role-unrouted (" ++ role ++ ")")))
        | some evidence => .call .now fun t =>
          seams.spawn
            { worktreeRoot := state.worktreeRoot
              remaining := config.budgets.runDeadline - (t - state.started)
              depth := config.subsessionDepth
              role
              project := state.project
              repository := state.repository
              sessionId := state.sessionId
              spawnSeq := state.subsessionEvents.length
              costTracking := config.costTracking } tool question evidence >>= fun
          | none => .ret none
          | some (.ok outcome) =>
            .ret (some (acceptSubagent tool role evidence executor state outcome))
          | some (.error error) =>
            .ret (some (refuseSubagent executor state toolId "subsession-spawn-failed"
              ("subsession spawn failed closed: " ++ error.text)))

/-! ## one attempt -/

structure DispatchedCall where
  action : WorkerAction
  receipt : ToolReceipt

def DispatchedCall.shape (c : DispatchedCall) : ToolCallShape := toolCallShape c.action c.receipt

structure Attempt where
  messages : List ModelMessage
  formatErrors : Nat
  lastProgress : Nat
  turnsThisAttempt : Nat
  churn : ChurnWindow
  noProgress : NoProgressGuard
  pollBudget : PollBudget
  executor : Executor
  state : RunState
  /-- history: the calls dispatched in this attempt -/
  calls : List DispatchedCall

structure AttemptEnd where
  outcome : AttemptOutcome
  executor : Executor
  state : RunState
  calls : List DispatchedCall
  /-- history: the attempt ended in the turn that dispatched the last of `calls` -/
  atLastCall : Bool

namespace Attempt

variable (a : Attempt)

def stop (outcome : AttemptOutcome) : AttemptEnd :=
  { outcome, executor := a.executor, state := a.state, calls := a.calls, atLastCall := false }

def stopAtCall (cls : FailureClass) (reason : String) : AttemptEnd :=
  { outcome := .failed ⟨cls, reason⟩, executor := a.executor, state := a.state, calls := a.calls
    atLastCall := true }

def fail (cls : FailureClass) (reason : String) : AttemptEnd :=
  a.stop (.failed ⟨cls, reason⟩)

def say (role : MessageRole) (content : String) : Attempt :=
  { a with messages := a.messages ++ [{ role, content }] }

def dispatched (action : WorkerAction) (executor : Executor) (state : RunState) :
    Attempt :=
  { a with
    executor, state
    calls := a.calls ++ (executor.receipts.getLast?.map fun receipt => { action, receipt }).toList }

end Attempt

abbrev Turn := Calls Answer (Attempt ⊕ Option AttemptEnd)

/-- the guards that run after a built-in call whose mediation did not fail -/
def afterCall (action : WorkerAction) (a : Attempt) : Turn :=
  match a.executor.receipts.getLast? with
  | none => .ret (.inl a)
  | some receipt =>
    let (churned, churn) := if config.guardrails.churnEnabled then
        a.churn.observe (toolCallShape action receipt) else (false, a.churn)
    let a := { a with churn }
    if churned then .ret (.inr (some (a.stopAtCall .toolLoopChurn "tool-loop-churn")))
    else if config.guardrails.noProgressEnabled then
      .call (.progressFingerprint a.executor.root a.executor.untrustedWrites) fun fingerprint =>
        let (stuck, noProgress) := a.noProgress.observe fingerprint
        let a := { a with noProgress }
        if stuck then .ret (.inr (some (a.stopAtCall .noProgress "no-progress"))) else .ret (.inl a)
    else .ret (.inl a)

/-- the observation goes to the model, the stall clock and the format errors start again -/
def settleCall (turn : ToolTurn) (a : Attempt) (k : Attempt → Turn) : Turn :=
  .call .now fun t =>
    let a := { a.say .user turn.observation with lastProgress := t, formatErrors := 0 }
    match turn.mediationFailure with
    | some reason => .ret (.inr (some (a.stopAtCall .mediationRefused reason)))
    | none => k a

def declaredTool (seams : Seams) (config : WorkerConfig) (a : Attempt) (toolId : String)
    (question : Option String) : Turn :=
  let action := WorkerAction.declaredTool toolId question
  match (config.tools.find? (·.id = toolId)).map ToolDefinition.mechanism with
  | some (.subagent _ _ _) =>
    dispatchSubagent seams config a.executor a.state toolId question >>= fun
    | none => .ret (.inr none)
    | some (observation, executor, state) =>
      settleCall { observation, mediationFailure := none } (a.dispatched action executor state)
        (.ret <| .inl ·)
  | _ =>
    a.executor.dispatch seams.helpers.containsSecretShaped action >>= fun (turn, executor) =>
      settleCall turn (a.dispatched action executor a.state) (.ret <| .inl ·)

def isPollShaped : WorkerAction → Bool
  | .bash script => pollShaped script
  | _ => false

def builtInTool (seams : Seams) (config : WorkerConfig) (a : Attempt) (action : WorkerAction)
    (dispatchStarted : Nat) : Turn :=
  a.executor.dispatch seams.helpers.containsSecretShaped action >>= fun (turn, executor) =>
    let a := a.dispatched action executor a.state
    if config.guardrails.pollBudgetEnabled && isPollShaped action then
      .call .now fun t =>
        let (exceeded, pollBudget) := a.pollBudget.charge (t - dispatchStarted)
        let a := { a with pollBudget }
        if exceeded then
          .ret (.inr (some (a.stopAtCall .pollBudgetExhausted "ci-poll-budget-exhausted")))
        else settleCall turn a (afterCall config action)
    else settleCall turn a (afterCall config action)

def act (seams : Seams) (task : WorkerTask) (config : WorkerConfig) (a : Attempt) (text : String)
    (dispatchStarted : Nat) : Turn :=
  match seams.helpers.parseAction text with
  | .error (.malformed reason) =>
    let a := { a with formatErrors := a.formatErrors + 1 }
    if config.budgets.maxConsecutiveFormatErrors < a.formatErrors then
      .ret (.inr (some (a.fail .formatErrorsExhausted reason)))
    else .ret (.inl (a.say .user ("response rejected: " ++ reason ++
      "; respond with exactly one fenced json action block")))
  | .error (.unknownTool name) =>
    let (turn, executor) := a.executor.recordRefusal name "unknown-tool"
    .ret (.inl ({ a with executor }.say .user turn.observation))
  | .ok (.finish summary success) =>
    if !success then .ret (.inr (some (a.fail .taskNotCompleted "task-not-completed")))
    else
      seams.deliver
        { taskId := task.id, summary, untrustedWrites := a.executor.untrustedWrites
          worktree := some a.state.worktreeRoot, worktreeBranch := config.worktreeBranch } >>= fun
      | .ok delivery => .ret (.inr (some (a.stop (.completed summary delivery))))
      | .error reason => .ret (.inr (some (a.fail .deliveryFailed reason)))
  | .ok (.declaredTool toolId question) => declaredTool seams config a toolId question
  | .ok action => builtInTool seams config a action dispatchStarted

def turn (seams : Seams) (task : WorkerTask) (config : WorkerConfig) (a : Attempt) : Turn :=
  .call .now fun dispatchStarted =>
  .call .now fun t₁ =>
  if config.budgets.runDeadline < t₁ - a.state.started then
    .ret (.inr (some (a.fail .workerTimeout "worker-timeout")))
  else .call .now fun t₂ =>
  if config.budgets.stallTimeout < t₂ - a.lastProgress then
    .ret (.inr (some (a.fail .stalled "stall-timeout")))
  else if config.budgets.maxTurnsPerAttempt ≤ a.turnsThisAttempt then
    .ret (.inr (some (a.fail .turnBudgetExhausted "turn-budget")))
  else
    let a := { a with
      turnsThisAttempt := a.turnsThisAttempt + 1
      state := { a.state with turns := a.state.turns + 1 } }
    callModel config a.messages a.state >>= fun
    | none => .ret (.inr none)
    | some (.error failure, state) => .ret (.inr (some ({ a with state }.stop (.failed failure))))
    | some (.ok text, state) =>
      act seams task config ({ a with state }.say .assistant text) text dispatchStarted

def Attempt.begin (helpers : Helpers) (task : WorkerTask) (config : WorkerConfig)
    (executor : Executor) (state : RunState) (replanNote replanSummary : Option String)
    (lastProgress : Nat) : Attempt :=
  { messages :=
      [{ role := .system, content := helpers.systemPrompt config },
       { role := .user, content := helpers.taskPrompt task replanNote replanSummary }]
    formatErrors := 0
    lastProgress
    turnsThisAttempt := 0
    churn := .new config.guardrails
    noProgress := .new config.guardrails
    pollBudget := .new config.guardrails
    executor, state
    calls := [] }

def runAttempt (seams : Seams) (task : WorkerTask) (config : WorkerConfig) (executor : Executor)
    (state : RunState) (replanNote replanSummary : Option String) :
    Calls Answer (Option AttemptEnd) :=
  .call .now fun lastProgress =>
    Calls.loop (turn seams task config) (config.budgets.maxTurnsPerAttempt + 1)
      (.begin seams.helpers task config executor state replanNote replanSummary lastProgress) >>=
    fun r => .ret r.join

/-! ## a run -/

structure RunLoop where
  attempts : Nat
  replans : Nat
  replanNote : Option String
  replanSummary : Option String
  executor : Executor
  state : RunState
  endings : List AttemptOutcome

structure RunEnd where
  outcome : AttemptOutcome
  loop : RunLoop

def FailureClass.replanFatal : FailureClass → Bool
  | .mediationRefused | .deliveryFailed | .toolLoopChurn | .noProgress | .pollBudgetExhausted => true
  | _ => false

def afterAttempt (helpers : Helpers) (config : WorkerConfig) (r : RunLoop)
    (outcome : AttemptOutcome) : Calls Answer (RunLoop ⊕ Option RunEnd) :=
  match outcome with
  | .completed _ _ => .ret (.inr (some { outcome, loop := r }))
  | .failed failure =>
    if failure.cls.replanFatal then .ret (.inr (some { outcome, loop := r }))
    else if config.budgets.maxAttempts ≤ r.attempts then
      .ret (.inr (some { outcome := .failed ⟨.attemptBudgetExhausted, failure.reason⟩, loop := r }))
    else if config.budgets.maxReplans ≤ r.replans then
      .ret (.inr (some { outcome := .failed ⟨.replanBudgetExhausted, failure.reason⟩, loop := r }))
    else
      let r := { r with replans := r.replans + 1, replanNote := some failure.reason }
      .call .now fun t =>
        if config.budgets.runDeadline < t - r.state.started then
          .ret (.inr (some { outcome := .failed ⟨.workerTimeout, "worker-timeout"⟩, loop := r }))
        else .ret (.inl { r with
          replanSummary := helpers.forReplan r.executor.receipts r.executor.untrustedWrites })

def attemptRound (seams : Seams) (task : WorkerTask) (config : WorkerConfig) (r : RunLoop) :
    Calls Answer (RunLoop ⊕ Option RunEnd) :=
  runAttempt seams task config r.executor r.state r.replanNote r.replanSummary >>= fun
  | none => .ret (.inr none)
  | some e =>
    afterAttempt seams.helpers config
      { r with attempts := r.attempts + 1, executor := e.executor, state := e.state
               endings := r.endings ++ [e.outcome] } e.outcome

namespace AttemptOutcome

def status : AttemptOutcome → RunStatus
  | .completed _ _ => .completed
  | .failed _ => .failed

def summary? : AttemptOutcome → Option String
  | .completed summary _ => some summary
  | .failed _ => none

def delivery? : AttemptOutcome → Option DeliveryOutcome
  | .completed _ delivery => some delivery
  | .failed _ => none

def failure? : AttemptOutcome → Option TypedFailure
  | .completed _ _ => none
  | .failed failure => some failure

end AttemptOutcome

def RunEnd.toRun (task : WorkerTask) (e : RunEnd) : WorkerRun :=
  { taskId := task.id
    status := e.outcome.status
    exitCode := if e.outcome.status = .completed then 0 else 1
    summary := e.outcome.summary?
    failure := e.outcome.failure?
    delivery := e.outcome.delivery?
    attempts := e.loop.attempts
    replans := e.loop.replans
    turns := e.loop.state.turns
    modelCalls := e.loop.state.modelCalls
    usage := e.loop.state.usage
    untrustedWrites := e.loop.executor.untrustedWrites
    receipts := e.loop.executor.receipts
    subsessionEvents := e.loop.state.subsessionEvents
    reasoningEvents := e.loop.executor.reasoningRecords
    endings := e.loop.endings }

def RunLoop.begin (task : WorkerTask) (config : WorkerConfig) (root : String) (bash : Mediator)
    (started : Nat) : RunLoop :=
  { attempts := 0
    replans := 0
    replanNote := none
    replanSummary := none
    executor := .new root bash
      { declared := config.tools
        allowedInternal := config.subsessionAllowedInternal
        subsessionDepth := config.subsessionDepth
        thinkEnabled := config.thinkEnabled
        recordPayloads := config.recordPayloads }
    state :=
      { turns := 0
        modelCalls := 0
        usage := { inputTokens := 0, outputTokens := 0 }
        subsessionEvents := []
        started
        worktreeRoot := root
        project := "local"
        repository := root
        sessionId := "run-" ++ task.id
        modelCallSequence := 0 }
    endings := [] }

def runWorkerWith (seams : Seams) (task : WorkerTask) (worktree : String) (bash : Mediator)
    (config : WorkerConfig) : Calls Answer (Option (Except WorkerError WorkerRun)) :=
  .call (.canonicalRoot worktree) fun
  | .error reason => .ret (some (.error (.worktreeRoot reason)))
  | .ok root => .call .now fun started =>
    Calls.loop (attemptRound seams task config) (max 1 config.budgets.maxAttempts)
      (.begin task config root bash started) >>= fun e =>
    .ret (e.join.map fun e => .ok (e.toRun task))

/-! ## sub-sessions -/

def parentFailureClass : FailureClass → FailureClass
  | .attemptBudgetExhausted | .replanBudgetExhausted | .turnBudgetExhausted | .workerTimeout
  | .stalled => .subsessionBudgetExhausted
  | .subsessionBudgetExhausted => .subsessionBudgetExhausted
  | .subsessionDepthExceeded => .subsessionDepthExceeded
  | .subsessionFailed | .formatErrorsExhausted | .providerError | .mediationRefused
  | .taskNotCompleted | .deliveryFailed => .subsessionFailed
  -- `guardrail_child_class`
  | .toolLoopChurn | .noProgress | .pollBudgetExhausted => .subsessionFailed

def outcomeFromRun (toolId : String) (routed : RoleRoutingEvidence) (maxResultBytes : Nat)
    (run : WorkerRun) : SubsessionOutcome :=
  { toolId
    status := run.status
    summary := run.summary.map (truncateBytes · maxResultBytes)
    failure := (run.failure.map fun f => ⟨parentFailureClass f.cls, f.reason⟩).filter
      fun _ => run.status = .failed
    usage := run.usage
    receipts := run.receipts
    untrustedWrites := run.untrustedWrites
    routing := routed }

def childBudgets (parent : SubsessionParent) (tool : ToolDefinition) : WorkerBudgets :=
  let wallClock := tool.budget.wallClockSecs.elim parent.remaining
    fun bound => min (bound * 1000000000) parent.remaining
  { WorkerBudgets.bootstrapDefaults with
    maxTurnsPerAttempt := max tool.budget.maxTurns 1
    maxAttempts := 1
    maxReplans := 0
    runBudget := wallClock
    workerTimeout := wallClock }

def childDescription (instructions question : Option String) : String :=
  instructions.elim "" (· ++ "\n\n") ++ question.elim "Complete the task your instructions define.\n"
    fun q => "Question from the parent session:\n" ++ q ++ "\n"

def childWorkerConfig (parent : SubsessionParent) (tool : ToolDefinition) (role : String)
    (routed : RoleRoutingEvidence) (allowedInternal : List InternalTool) : WorkerConfig :=
  { WorkerConfig.new routed.provider routed.model (childBudgets parent tool) with
    -- the depth is a `u8`
    subsessionDepth := min (parent.depth + 1) 255
    subsessionAllowedInternal := allowedInternal
    structuredSummary := tool.budget.structuredSummary || tool.structuredSummary.getD false
    effort := tool.effort
    costTracking := parent.costTracking.map fun attribution =>
      { agentDomainId := attribution.agentDomainId
        role
        project := parent.project
        session := attribution.session ++ "/tool-" ++ tool.id ++ "-" ++ toString parent.spawnSeq
        repository := parent.repository } }

def runSubsession
    (child : WorkerTask → String → Mediator → WorkerConfig →
      Calls Answer (Option (Except WorkerError WorkerRun)))
    (parent : SubsessionParent) (tool : ToolDefinition) (question : Option String)
    (routed : RoleRoutingEvidence) :
    Calls Answer (Option (Except SubsessionError SubsessionOutcome)) :=
  match tool.mechanism with
  | .command _ => .ret (some (.error (.notSubagent tool.id)))
  | .subagent role internalTools instructions =>
    child
      { id := "tool." ++ tool.id, slug := "tool-" ++ tool.id
        description := childDescription instructions question }
      parent.worktreeRoot
      (if .bash ∈ internalTools then .subsession else .readOnlyStub)
      (childWorkerConfig parent tool role routed internalTools) >>= fun
    | none => .ret none
    | some (.error (.worktreeRoot reason)) => .ret (some (.error (.worktreeRoot reason)))
    | some (.ok run) => .ret (some (.ok (outcomeFromRun tool.id routed
        (tool.maxSummaryBytes.getD tool.budget.maxResultBytes) run)))

def pendingDelivery (_ : DeliveryRequest) : Calls Answer (Except String DeliveryOutcome) :=
  .ret (.ok (.pending "delivery-path-not-wired"))

/-- The seams of a sub-session.  Its depth is positive, so `dispatchSubagent` refuses before it would
spawn. -/
def childSeams (helpers : Helpers) : Seams :=
  { helpers
    deliver := pendingDelivery
    spawn := fun _ tool _ _ => .ret (some (.error (.notSubagent tool.id))) }

def workerSeams (helpers : Helpers) : Seams :=
  { helpers
    deliver := fun request => .call (.deliver request) .ret
    spawn := runSubsession (runWorkerWith (childSeams helpers)) }

def runWorker (helpers : Helpers) (task : WorkerTask) (worktree : String) (config : WorkerConfig) :
    Calls Answer (Option (Except WorkerError WorkerRun)) :=
  runWorkerWith (workerSeams helpers) task worktree .given config

end Worker

import Orchestraitor.Base.CallRules
import Orchestraitor.Worker.Think

/-!
# The tools of a worker (`action.rs`, `tooldef.rs`, `tools.rs`)

A parsed action is dispatched by the executor of the run.  Whatever happens to it, the dispatch
leaves exactly one receipt (`Executor.dispatch_within`); file-system, clock, mediator, provider and
delivery are calls.
-/

namespace Worker
open Base

/-! ## actions -/

inductive WorkerAction where
  | readFile (path : String)
  | writeFile (path content : String)
  | search (pattern : String) (path : Option String)
  | bash (script : String)
  | think (thought : String) (thoughtNumber totalThoughts : Nat)
      (nextThoughtNeeded isRevision : Bool) (revisesThought branchFromThought : Option Nat)
      (branchId : Option String)
  | declaredTool (toolId : String) (question : Option String)
  | finish (summary : String) (success : Bool)

inductive ActionRejection where
  | malformed (reason : String)
  | unknownTool (name : String)

/-! ## declared tools -/

inductive InternalTool where
  | readFile | search | bash | think
  deriving DecidableEq

def InternalTool.toolName : InternalTool → String
  | .readFile => "read_file"
  | .search => "search"
  | .bash => "bash"
  | .think => "think"

inductive ToolMechanism where
  | command (argv : List String)
  | subagent (role : String) (internalTools : List InternalTool) (instructions : Option String)

structure ToolBudget where
  maxTurns : Nat
  wallClockSecs : Option Nat
  maxResultBytes : Nat
  structuredSummary : Bool

inductive ReasoningEffort where
  | low | medium | high

structure ToolDefinition where
  id : String
  mechanism : ToolMechanism
  budget : ToolBudget
  effort : Option ReasoningEffort
  maxSummaryBytes : Option Nat
  structuredSummary : Option Bool

structure ToolPolicy where
  declared : List ToolDefinition
  allowedInternal : List InternalTool
  subsessionDepth : Nat
  thinkEnabled : Bool
  recordPayloads : Bool

def ToolPolicy.find (policy : ToolPolicy) (toolId : String) : Option ToolDefinition :=
  policy.declared.find? (·.id = toolId)

/-! ## what the worker asks of the world -/

structure MediatedRun where
  exitCode : Option Int
  stdout : String
  stderr : String

inductive MediationError where
  | unsupportedPlatform | unavailableControls | context | bash

def mediationReason : MediationError → String
  | .unsupportedPlatform => "mediation-unsupported-platform"
  | .unavailableControls => "mediation-unavailable-controls"
  | .context => "mediation-context"
  | .bash => "mediation-bash"

inductive PathRejection where
  | empty | absolute | escapesWorktree | symlinkComponent | inaccessible

def PathRejection.reasonCode : PathRejection → String
  | .empty => "path-empty"
  | .absolute => "path-absolute"
  | .escapesWorktree => "path-escape"
  | .symlinkComponent => "path-symlink"
  | .inaccessible => "path-inaccessible"

structure FileMetadata where
  isFile : Bool
  len : Nat

inductive FileRead where
  | io
  | nonUtf8
  | text (content : String)

/-- which mediator an executor holds: the one `run_worker` was given, the one a sub-session makes
for itself, or the stub that refuses -/
inductive Mediator where
  | given | subsession | readOnlyStub

inductive MessageRole where
  | system | user | assistant

structure ModelMessage where
  role : MessageRole
  content : String

structure ModelRequest where
  providerId : String
  modelId : String
  messages : List ModelMessage
  maxOutputTokens : Option Nat
  effort : Option ReasoningEffort

structure TokenCount where
  inputTokens : Nat
  outputTokens : Nat
  cachedTokens : Nat
  reasoningTokens : Nat

inductive ModelEvent where
  | started
  | textDelta (text : String)
  | toolCall
  | usage (tokenCount : TokenCount)
  | completed

inductive ProviderTransportError where
  | requestFailed | invalidEvent | capabilityUnavailable

structure CostAttribution where
  agentDomainId : String
  role : String
  project : String
  session : String
  repository : String

structure CostEntry where
  model : String
  provider : String
  attribution : CostAttribution
  inputTokens : Nat
  outputTokens : Nat
  reasoningTokens : Nat
  cacheReadTokens : Nat
  requestId : String
  routingDecision : String

structure DeliveryRequest where
  taskId : String
  summary : String
  untrustedWrites : List String
  worktree : Option String
  worktreeBranch : Option String

inductive DeliveryOutcome where
  | prOpened (reference : String)
  | pending (reason : String)
  deriving DecidableEq

inductive Query where
  | canonicalRoot (worktree : String)
  | now
  | stream (request : ModelRequest)
  | recordCost (entry : CostEntry)
  | sleep (delay : Nat)
  | resolve (root path : String)
  | metadata (path : String)
  | read (path : String)
  | isDir (path : String)
  | searchFiles (base root pattern : String)
  | createParent (path : String)
  | write (path content : String)
  | runBash (mediator : Mediator) (script : String)
  | runBashWithin (bound : Nat) (mediator : Mediator) (script : String)
  | progressFingerprint (root : String) (untrustedWrites : List String)
  | deliver (request : DeliveryRequest)

@[reducible] def Answer : Query → Type
  | .canonicalRoot _ => Except String String
  | .now => Nat
  | .stream _ => Except ProviderTransportError (List (Option ModelEvent))
  | .recordCost _ => Unit
  | .sleep _ => Unit
  | .resolve _ _ => Except PathRejection String
  | .metadata _ => Option FileMetadata
  | .read _ => FileRead
  | .isDir _ => Bool
  | .searchFiles _ _ _ => List String
  | .createParent _ => Bool
  | .write _ _ => Bool
  | .runBash _ _ => Except MediationError MediatedRun
  | .runBashWithin _ _ _ => Option (Except MediationError MediatedRun)
  | .progressFingerprint _ _ => UInt64
  | .deliver _ => Except String DeliveryOutcome

def Query.isTool : Query → Bool
  | .resolve _ _ | .metadata _ | .read _ | .isDir _ | .searchFiles _ _ _ | .createParent _
  | .write _ _ | .runBash _ _ | .runBashWithin _ _ _ => true
  | _ => false

/-! ## texts -/

def truncationMarker : String := "\n[truncated]"

def takeBytes : Nat → List Char → List Char
  | _, [] => []
  | n, c :: cs => if c.utf8Size ≤ n then c :: takeBytes (n - c.utf8Size) cs else []

def truncateBytes (text : String) (max : Nat) : String :=
  if text.utf8ByteSize ≤ max then text
  else String.ofList (takeBytes max text.toList) ++ truncationMarker

def truncateChars (text : String) (max : Nat) : String :=
  if text.toList.length ≤ max then text
  else String.ofList (text.toList.take max) ++ truncationMarker

/-- each argument in single quotes, an embedded quote ended, escaped and reopened -/
def quoteArgv (argv : List String) : String :=
  argv.foldl (fun line arg => line ++ " '" ++
    String.join (arg.toList.map fun c => if c = '\'' then "'\\''" else c.toString) ++ "'") "exec"

/-! ## receipts -/

inductive ReceiptOutcome where
  | completed | refused | failed
  deriving DecidableEq

structure ToolReceipt where
  sequence : Nat
  tool : String
  admitted : Bool
  outcome : ReceiptOutcome
  reason : Option String
  exitCode : Option Int
  deriving DecidableEq

structure ToolTurn where
  observation : String
  mediationFailure : Option String

/-! ## the executor -/

structure Executor where
  root : String
  bash : Mediator
  receipts : List ToolReceipt
  untrustedWrites : List String
  policy : ToolPolicy
  thoughts : ThoughtChain
  reasoningRecords : List ReasoningRecord

def maxReadBytes : Nat := 1024 * 1024
def maxWriteBytes : Nat := 1024 * 1024
def maxObservationChars : Nat := 8 * 1024
def maxThoughtChars : Nat := 8 * 1024

namespace Executor

def new (root : String) (bash : Mediator) (policy : ToolPolicy) : Executor :=
  { root, bash, receipts := [], untrustedWrites := [], policy, thoughts := .new
    reasoningRecords := [] }

variable (ex : Executor)

def pushReceipt (tool : String) (admitted : Bool) (outcome : ReceiptOutcome)
    (reason : Option String) (exitCode : Option Int) : Executor :=
  { ex with receipts := ex.receipts ++
    [{ sequence := ex.receipts.length + 1, tool, admitted, outcome, reason, exitCode }] }

def refusal (ex : Executor) (tool : String) (admitted : Bool) (reason : String) :
    ToolTurn × Executor :=
  ({ observation := "tool call refused: " ++ reason, mediationFailure := none },
    ex.pushReceipt tool admitted .refused (some reason) none)

def recordRefusal (tool reason : String) : ToolTurn × Executor :=
  ex.refusal tool false reason

def admittedRefusal (tool reason : String) : ToolTurn × Executor :=
  ex.refusal tool true reason

def recordSubagentCompletion (toolId : String) (completed : Bool) : Executor :=
  if completed then ex.pushReceipt toolId true .completed none none
  else ex.pushReceipt toolId true .failed (some "subsession-failed") none

def recordSubagentRefusal (toolId reason : String) : Executor :=
  ex.pushReceipt toolId true .refused (some reason) none

def recordChildWrite (path : String) : Executor :=
  { ex with untrustedWrites := ex.untrustedWrites ++ [path] }

inductive InternalAction where
  | allowed (tool : InternalTool)
  | neverAdmissible (name : String)
  | notInternal

def internalActionOf : WorkerAction → InternalAction
  | .readFile _ => .allowed .readFile
  | .search _ _ => .allowed .search
  | .bash _ => .allowed .bash
  | .think _ _ _ _ _ _ _ _ => .allowed .think
  | .writeFile _ _ => .neverAdmissible "write_file"
  | .declaredTool _ _ | .finish _ _ => .notInternal

def isThink : WorkerAction → Bool
  | .think _ _ _ _ _ _ _ _ => true
  | _ => false

/-- `some` refusal when the action is not on the surface of this run -/
def admitInternal (action : WorkerAction) : Option (ToolTurn × Executor) :=
  if !ex.policy.thinkEnabled && isThink action then
    some (ex.admittedRefusal "think" "tool-not-allowed")
  else if ex.policy.subsessionDepth = 0 then none
  else match internalActionOf action with
    | .notInternal => none
    | .neverAdmissible name => some (ex.admittedRefusal name "tool-not-allowed")
    | .allowed tool =>
      if tool ∈ ex.policy.allowedInternal then none
      else some (ex.admittedRefusal tool.toolName "tool-not-allowed")

def readFile (path : String) : Calls Answer (ToolTurn × Executor) :=
  .call (.resolve ex.root path) fun
  | .error rejection => .ret (ex.refusal "read_file" false rejection.reasonCode)
  | .ok resolved => .call (.metadata resolved) fun
    | none => .ret (ex.admittedRefusal "read_file" "not-a-file")
    | some metadata =>
      if !metadata.isFile then .ret (ex.admittedRefusal "read_file" "not-a-file")
      else if maxReadBytes < metadata.len then
        .ret (ex.admittedRefusal "read_file" "file-too-large")
      else .call (.read resolved) fun
        | .io => .ret (ex.admittedRefusal "read_file" "io")
        | .nonUtf8 => .ret (ex.admittedRefusal "read_file" "non-utf8")
        | .text content => .ret
          ({ observation := "[read_file " ++ path ++ "]\n" ++
              truncateChars content maxObservationChars, mediationFailure := none },
            ex.pushReceipt "read_file" true .completed none none)

def searchIn (base pattern : String) : Calls Answer (ToolTurn × Executor) :=
  .call (.isDir base) fun dir =>
    if !dir then .ret (ex.admittedRefusal "search" "search-root-invalid")
    else .call (.searchFiles base ex.root pattern) fun found => .ret
      ({ observation := if found.isEmpty then "[search] no matches"
          else "[search] " ++ toString found.length ++ " match(es)\n" ++
            truncateChars ("\n".intercalate found) maxObservationChars, mediationFailure := none },
        ex.pushReceipt "search" true .completed none none)

def search (ex : Executor) (pattern : String) (path : Option String) :
    Calls Answer (ToolTurn × Executor) :=
  match path with
  | none => ex.searchIn ex.root pattern
  | some path => .call (.resolve ex.root path) fun
    | .error rejection => .ret (ex.refusal "search" false rejection.reasonCode)
    | .ok resolved => ex.searchIn resolved pattern

def writeFile (path content : String) : Calls Answer (ToolTurn × Executor) :=
  if maxWriteBytes < content.utf8ByteSize then
    .ret (ex.admittedRefusal "write_file" "content-too-large")
  else .call (.resolve ex.root path) fun
    | .error rejection => .ret (ex.refusal "write_file" false rejection.reasonCode)
    | .ok resolved => .call (.createParent resolved) fun parentOk =>
      if !parentOk then .ret (ex.admittedRefusal "write_file" "io")
      else .call (.write resolved content) fun written =>
        if !written then .ret (ex.admittedRefusal "write_file" "io")
        else .ret
          ({ observation := "[write_file " ++ path ++ "] wrote " ++
              toString content.utf8ByteSize ++ " bytes", mediationFailure := none },
            (ex.recordChildWrite path).pushReceipt "write_file" true .completed none none)

/-! ### bash -/

def bashTurn : Except MediationError MediatedRun → ToolTurn × Executor
  | .ok run =>
    ({ observation := "[bash exit " ++ (run.exitCode.elim "signal" toString) ++
        "]\n--- stdout ---\n" ++ truncateChars run.stdout maxObservationChars ++
        "\n--- stderr ---\n" ++ truncateChars run.stderr maxObservationChars
       mediationFailure := none },
      ex.pushReceipt "bash" true .completed none run.exitCode)
  | .error error =>
    ({ observation := "mediated bash failed closed: " ++ mediationReason error
       mediationFailure := some (mediationReason error) },
      ex.pushReceipt "bash" true .failed (some (mediationReason error)) none)

def runBash (ex : Executor) (script : String) : Calls Answer (Except MediationError MediatedRun) :=
  match ex.bash with
  | .readOnlyStub => .ret (.error .context)
  | mediator => .call (.runBash mediator script) .ret

def runBashWithin (ex : Executor) (bound : Nat) (script : String) :
    Calls Answer (Option (Except MediationError MediatedRun)) :=
  match ex.bash with
  | .readOnlyStub => .ret (some (.error .context))
  | mediator => .call (.runBashWithin bound mediator script) .ret

def bashTool (script : String) : Calls Answer (ToolTurn × Executor) :=
  ex.runBash script >>= fun run => .ret (ex.bashTurn run)

/-! ### declared tools -/

/-- the mediated receipt names `bash`; the caller sees the declared tool -/
def relabelLast (toolId : String) : Executor :=
  match ex.receipts.getLast? with
  | some receipt =>
    if receipt.tool = "bash" then
      { ex with receipts := ex.receipts.dropLast ++ [{ receipt with tool := toolId }] }
    else ex
  | none => ex

def declaredTurn (toolId : String) (tool : Option ToolDefinition) (r : ToolTurn × Executor) :
    ToolTurn × Executor :=
  let observation := match tool.map (·.budget.maxResultBytes) with
    | some cap => if cap < r.1.observation.utf8ByteSize then
        truncateBytes r.1.observation (cap - truncationMarker.utf8ByteSize) else r.1.observation
    | none => r.1.observation
  ({ r.1 with observation }, r.2.relabelLast toolId)

def declaredCommand (toolId : String) (argv : List String) :
    Calls Answer (ToolTurn × Executor) :=
  let tool := ex.policy.find toolId
  match tool.bind (·.budget.wallClockSecs) with
  | some bound => ex.runBashWithin (bound * 1000000000) (quoteArgv argv) >>= fun
    | some run => .ret (declaredTurn toolId tool (ex.bashTurn run))
    | none => .ret (ex.admittedRefusal toolId "declared-tool-timeout")
  | none => ex.runBash (quoteArgv argv) >>= fun run =>
    .ret (declaredTurn toolId tool (ex.bashTurn run))

def dispatchDeclared (toolId : String) : Calls Answer (ToolTurn × Executor) :=
  if 0 < ex.policy.subsessionDepth then
    .ret (ex.admittedRefusal toolId "subsession-depth-exceeded")
  else match (ex.policy.find toolId).map ToolDefinition.mechanism with
    | none => .ret (ex.admittedRefusal toolId "tool-not-allowed")
    | some (.command argv) => ex.declaredCommand toolId argv
    | some (.subagent _ _ _) => .ret (ex.admittedRefusal toolId "declared-tool-execution-unwired")

/-! ### think -/

structure Thought where
  thought : String
  thoughtNumber : Nat
  totalThoughts : Nat
  nextThoughtNeeded : Bool
  isRevision : Bool
  revisesThought : Option Nat
  branchingSupplied : Bool

def record (t : Thought) (refusalReason : Option String) : ReasoningRecord :=
  { accepted := refusalReason.isNone
    refusalReason
    thoughtNumber := t.thoughtNumber
    totalThoughts := t.totalThoughts
    nextThoughtNeeded := t.nextThoughtNeeded
    isRevision := t.isRevision
    revisesThought := if t.isRevision then t.revisesThought else none
    thoughtChars := t.thought.toList.length
    sequenceId := ex.thoughts.sequenceId
    thoughtText := none }

def thinkRefusal (t : Thought) (reason : String) : ToolTurn × Executor :=
  ({ observation := "[think refused: " ++ reason ++ "]", mediationFailure := none },
    { ex with reasoningRecords := ex.reasoningRecords ++ [ex.record t (some reason)] }.pushReceipt
      "think" true .refused (some reason) none)

def think (secretShaped : String → Bool) (ex : Executor) (t : Thought) : ToolTurn × Executor :=
  if t.branchingSupplied then ex.thinkRefusal t reasonBranchingNotSupported
  else if t.thought.isEmpty then ex.thinkRefusal t reasonThoughtEmpty
  else if maxThoughtChars < t.thought.toList.length then ex.thinkRefusal t reasonThoughtTooLarge
  else match ex.thoughts.validate t.thoughtNumber t.totalThoughts t.isRevision t.revisesThought with
    | .error reason =>
      let (turn, ex) := ex.thinkRefusal t reason
      if reason = reasonThoughtBudgetExhausted ∧ maxThoughtsPerSequence < t.thoughtNumber then
        let observation := "[think refused: " ++ reason ++ "] the sequence ceiling of " ++
          toString maxThoughtsPerSequence ++
          " thoughts is reached: conclude now, then finish the task"
        ({ turn with observation }, ex)
      else (turn, ex)
    | .ok () =>
      if secretShaped t.thought then ex.thinkRefusal t reasonSecretShapedContent
      else
        let ex := { ex with
          thoughts := ex.thoughts.accept t.thoughtNumber t.nextThoughtNeeded t.isRevision }
        let record := { ex.record t none with
          thoughtText := if ex.policy.recordPayloads then some t.thought else none }
        ({ observation := "[think " ++ toString t.thoughtNumber ++ "/" ++
            toString t.totalThoughts ++ " next=" ++ toString t.nextThoughtNeeded ++
            "] sequence=" ++ toString ex.thoughts.sequenceId ++ " thoughts=" ++
            toString ex.thoughts.runCount ++ " budget=" ++ toString maxThoughtsPerSequence
           mediationFailure := none },
          { ex with reasoningRecords := ex.reasoningRecords ++ [record] }.pushReceipt
            "think" true .completed none none)

/-! ### dispatch -/

def dispatch (secretShaped : String → Bool) (ex : Executor) (action : WorkerAction) :
    Calls Answer (ToolTurn × Executor) :=
  match ex.admitInternal action with
  | some refused => .ret refused
  | none => match action with
    | .readFile path => ex.readFile path
    | .search pattern path => ex.search pattern path
    | .writeFile path content => ex.writeFile path content
    | .bash script => ex.bashTool script
    | .think thought thoughtNumber totalThoughts nextThoughtNeeded isRevision revisesThought
        branchFromThought branchId =>
      .ret (ex.think secretShaped
        { thought, thoughtNumber, totalThoughts, nextThoughtNeeded, isRevision, revisesThought
          branchingSupplied := branchFromThought.isSome || branchId.isSome })
    | .declaredTool toolId _ => ex.dispatchDeclared toolId
    | .finish _ _ => .ret (ex.recordRefusal "finish" "misrouted-finish")

/-! ## one dispatch, one receipt -/

/-- `ex'` is `ex` after one dispatch -/
structure Next (ex ex' : Executor) : Prop where
  receipt : ∃ receipt, ex'.receipts = ex.receipts ++ [receipt]
  root : ex'.root = ex.root
  policy : ex'.policy = ex.policy
  bash : ex'.bash = ex.bash

theorem next_pushReceipt (tool : String) (admitted : Bool) (outcome : ReceiptOutcome)
    (reason : Option String) (exitCode : Option Int) :
    ex.Next (ex.pushReceipt tool admitted outcome reason exitCode) :=
  ⟨⟨_, rfl⟩, rfl, rfl, rfl⟩

theorem next_refusal (tool : String) (admitted : Bool) (reason : String) :
    ex.Next (ex.refusal tool admitted reason).2 := ex.next_pushReceipt ..

theorem next_admittedRefusal (tool reason : String) :
    ex.Next (ex.admittedRefusal tool reason).2 := ex.next_refusal ..

theorem admitInternal_refusal {ex : Executor} {action : WorkerAction} {r : ToolTurn × Executor}
    (h : ex.admitInternal action = some r) : ∃ tool reason, r = ex.admittedRefusal tool reason := by
  unfold admitInternal at h
  split at h
  · cases h
    exact ⟨_, _, rfl⟩
  · split at h
    · cases h
    · split at h
      · cases h
      · cases h
        exact ⟨_, _, rfl⟩
      · split at h
        · cases h
        · cases h
          exact ⟨_, _, rfl⟩

theorem next_admitInternal {ex : Executor} {action : WorkerAction} {r : ToolTurn × Executor}
    (h : ex.admitInternal action = some r) : ex.Next r.2 := by
  obtain ⟨tool, reason, rfl⟩ := admitInternal_refusal h
  exact ex.next_admittedRefusal ..

theorem next_bashTurn (run : Except MediationError MediatedRun) : ex.Next (ex.bashTurn run).2 := by
  cases run <;> exact ex.next_pushReceipt ..

theorem Next.relabelLast {ex ex' : Executor} (h : ex.Next ex') (toolId : String) :
    ex.Next (ex'.relabelLast toolId) := by
  obtain ⟨receipt, hr⟩ := h.receipt
  unfold Executor.relabelLast
  rw [hr, List.getLast?_concat]
  dsimp only
  split
  · exact ⟨⟨_, by rw [List.dropLast_concat]⟩, h.root, h.policy, h.bash⟩
  · exact h

theorem next_thinkRefusal (t : Thought) (reason : String) :
    ex.Next (ex.thinkRefusal t reason).2 := ⟨⟨_, rfl⟩, rfl, rfl, rfl⟩

theorem next_think (secretShaped : String → Bool) (ex : Executor) (t : Thought) :
    ex.Next (ex.think secretShaped t).2 := by
  unfold think
  split
  · exact ex.next_thinkRefusal ..
  split
  · exact ex.next_thinkRefusal ..
  split
  · exact ex.next_thinkRefusal ..
  split
  · dsimp only
    split <;> exact ex.next_thinkRefusal ..
  · split
    · exact ex.next_thinkRefusal ..
    · exact ⟨⟨_, rfl⟩, rfl, rfl, rfl⟩

theorem readFile_within (path : String) : (ex.readFile path).Within (·.isTool) (ex.Next ·.2) := by
  refine ⟨rfl, fun resolved => ?_⟩
  cases resolved with
  | error => exact ex.next_refusal ..
  | ok =>
    refine ⟨rfl, fun metadata => ?_⟩
    cases metadata with
    | none => exact ex.next_admittedRefusal ..
    | some =>
      dsimp only
      split
      · exact ex.next_admittedRefusal ..
      split
      · exact ex.next_admittedRefusal ..
      refine ⟨rfl, fun content => ?_⟩
      cases content with
      | io => exact ex.next_admittedRefusal ..
      | nonUtf8 => exact ex.next_admittedRefusal ..
      | text => exact ex.next_pushReceipt ..

theorem searchIn_within (base pattern : String) :
    (ex.searchIn base pattern).Within (·.isTool) (ex.Next ·.2) := by
  refine ⟨rfl, fun dir => ?_⟩
  dsimp only
  split
  · exact ex.next_admittedRefusal ..
  · exact ⟨rfl, fun _ => ex.next_pushReceipt ..⟩

theorem search_within (pattern : String) (path : Option String) :
    (ex.search pattern path).Within (·.isTool) (ex.Next ·.2) := by
  cases path with
  | none => exact ex.searchIn_within ..
  | some =>
    refine ⟨rfl, fun resolved => ?_⟩
    cases resolved with
    | error => exact ex.next_refusal ..
    | ok => exact ex.searchIn_within ..

theorem writeFile_within (path content : String) :
    (ex.writeFile path content).Within (·.isTool) (ex.Next ·.2) := by
  unfold writeFile
  split
  · exact ex.next_admittedRefusal ..
  refine ⟨rfl, fun resolved => ?_⟩
  cases resolved with
  | error => exact ex.next_refusal ..
  | ok =>
    refine ⟨rfl, fun parentOk => ?_⟩
    dsimp only
    split
    · exact ex.next_admittedRefusal ..
    refine ⟨rfl, fun written => ?_⟩
    dsimp only
    split
    · exact ex.next_admittedRefusal ..
    · exact ⟨⟨_, rfl⟩, rfl, rfl, rfl⟩

theorem runBash_within (script : String) :
    (ex.runBash script).Within (·.isTool) (fun _ => True) := by
  unfold runBash
  split
  · trivial
  · exact ⟨rfl, fun _ => trivial⟩

theorem runBashWithin_within (bound : Nat) (script : String) :
    (ex.runBashWithin bound script).Within (·.isTool) (fun _ => True) := by
  unfold runBashWithin
  split
  · trivial
  · exact ⟨rfl, fun _ => trivial⟩

theorem bashTool_within (script : String) :
    (ex.bashTool script).Within (·.isTool) (ex.Next ·.2) := by
  rw [bashTool, Calls.within_bind]
  exact (ex.runBash_within script).mono fun run _ => ex.next_bashTurn run

theorem declaredCommand_within (toolId : String) (argv : List String) :
    (ex.declaredCommand toolId argv).Within (·.isTool) (ex.Next ·.2) := by
  unfold declaredCommand
  dsimp only
  split
  · rw [Calls.within_bind]
    apply (ex.runBashWithin_within _ _).mono
    intro run _
    cases run with
    | none => exact ex.next_admittedRefusal ..
    | some run => exact (ex.next_bashTurn run).relabelLast toolId
  · rw [Calls.within_bind]
    exact (ex.runBash_within _).mono fun run _ => (ex.next_bashTurn run).relabelLast toolId

theorem dispatchDeclared_within (toolId : String) :
    (ex.dispatchDeclared toolId).Within (·.isTool) (ex.Next ·.2) := by
  unfold dispatchDeclared
  split
  · exact ex.next_admittedRefusal ..
  split
  · exact ex.next_admittedRefusal ..
  · exact ex.declaredCommand_within ..
  · exact ex.next_admittedRefusal ..

theorem dispatch_within (secretShaped : String → Bool) (ex : Executor) (action : WorkerAction) :
    (ex.dispatch secretShaped action).Within (·.isTool) (ex.Next ·.2) := by
  unfold dispatch
  split
  next r hr => exact next_admitInternal hr
  next =>
    cases action with
    | readFile path => exact ex.readFile_within path
    | writeFile path content => exact ex.writeFile_within path content
    | search pattern path => exact ex.search_within pattern path
    | bash script => exact ex.bashTool_within script
    | think => exact ex.next_think ..
    | declaredTool toolId => exact ex.dispatchDeclared_within toolId
    | finish => exact ex.next_refusal ..

end Executor

end Worker

import Orchestraitor.Delivery.Convergence
import Orchestraitor.Delivery.ReviewerSelection

/-!
# The change-set review pipeline (`review_pipeline.rs`)

The review executor is a function on a state of its own, so a run can depend on everything the
executor has seen.  The source's unbounded `loop` takes a fuel argument; `none` means that the
fuel ran out.

* `ReviewPipeline`     a pipeline can only be built over a configuration that passed both checks.
-/

namespace Delivery
open Base Std

structure ReviewOutcome where
  head : Option String := none
  findings : List ReviewFinding := []

structure ReviewRequest where
  generation : Nat
  reviewers : ReviewerSet

inductive ReviewFailureReason where
  | malformedFinding (detail : String)
  | blankGenerationHead
  deriving DecidableEq

inductive ReviewVerdict where
  | skippedEmptyChangeSet
  | stopNoBlockingFindings
  | maxLoopsBlocked (reason : BlockedReason)
  | failed (reason : ReviewFailureReason)
  deriving DecidableEq

inductive ReviewPipelineEvent where
  | triggered (reviewers : ReviewerSet)
  | generationStarted (generation : Nat)
  | generationRecorded (generation reported newFindings deduplicated resolved blockingOpen : Nat)
  | convergenceEvaluated (generation : Nat) (verdict : ConvergenceVerdict)
  | terminated (verdict : ReviewVerdict)

inductive ReviewPipelineError where
  | invalidConfig (err : ReviewLoopConfigError)
  | selection (err : ReviewerSelectionError)
  | alreadyTerminated
  | convergence (err : ConvergenceError)
  deriving DecidableEq

abbrev Executor (σ : Type) := σ → ReviewRequest → ReviewOutcome × σ

structure ReviewPipeline where
  config : ReviewLoopConfig
  reviewers : Option ReviewerSet
  ledger : FindingLedger
  journal : List ReviewPipelineEvent
  verdict : Option ReviewVerdict
  valid : config.validate = .ok ()
  selectable : ∃ slots, selectReviewers {} config = .ok slots

namespace ReviewPipeline

def new (config : ReviewLoopConfig) : Except ReviewPipelineError ReviewPipeline :=
  match hv : config.validate with
  | .error err => .error (.invalidConfig err)
  | .ok () =>
    match hs : selectReviewers {} config with
    | .error err => .error (.selection err)
    | .ok slots =>
      .ok { config := config, reviewers := none, ledger := .new, journal := [], verdict := none,
            valid := hv, selectable := ⟨slots, hs⟩ }

variable (p : ReviewPipeline)

def pushEvent (event : ReviewPipelineEvent) : ReviewPipeline :=
  { p with journal := p.journal ++ [event] }

def terminate (verdict : ReviewVerdict) : ReviewPipeline :=
  { p.pushEvent (.terminated verdict) with verdict := some verdict }

def setLedger (ledger : FindingLedger) : ReviewPipeline :=
  { p with ledger := ledger }

def recordAll (ledger : FindingLedger) (completedLoop : Nat) :
    List ReviewFinding → OrdSet FindingId → Nat →
      Except FindingError (OrdSet FindingId × Nat) × FindingLedger
  | [], reported, newFindings => (.ok (reported, newFindings), ledger)
  | finding :: rest, reported, newFindings =>
    match ledger.record finding completedLoop with
    | (.ok (id, outcome), ledger) =>
      recordAll ledger completedLoop rest (reported.insert id)
        (if outcome = .new then newFindings + 1 else newFindings)
    | (.error err, ledger) => (.error err, ledger)

def convergenceInput (completedLoop : Nat) (head : Option String) :
    ConvergenceInput :=
  let input := ConvergenceInput.new p.ledger p.config completedLoop
  match head with
  | some head => input.withGenerationHead head
  | none => input

def conclude (generation : Nat) (input : ConvergenceInput) :
    Option (Except ReviewPipelineError ReviewVerdict) × ReviewPipeline :=
  match input.validate with
  | .error err => (some (.error (.convergence err)), p)
  | .ok () =>
    let verdict := evaluate input
    let p := p.pushEvent (.convergenceEvaluated generation verdict)
    match verdict with
    | .converged => (some (.ok .stopNoBlockingFindings), p.terminate .stopNoBlockingFindings)
    | .blocked reason =>
      (some (.ok (.maxLoopsBlocked reason)), p.terminate (.maxLoopsBlocked reason))
    | .continue _ => (none, p)

def recordGeneration (generation : Nat) (outcome : ReviewOutcome) :
    Option (Except ReviewPipelineError ReviewVerdict) × ReviewPipeline :=
  let completedLoop := satAdd32 generation 1
  let reportedCount := outcome.findings.length
  match recordAll p.ledger completedLoop outcome.findings ∅ 0 with
  | (.error err, ledger) =>
    let verdict := .failed (.malformedFinding err.message)
    (some (.ok verdict), (p.setLedger ledger).terminate verdict)
  | (.ok (reported, newFindings), ledger) =>
    let closed := ledger.resolveUnreported reported
    let blockingOpen := closed.2.blockingOpenCount p.config.minimumSeverityToBlock
    let p := (p.setLedger closed.2).pushEvent (.generationRecorded generation reportedCount
      newFindings (reportedCount - newFindings) closed.1 blockingOpen)
    p.conclude generation (p.convergenceInput completedLoop outcome.head)

def runGeneration (generation : Nat) (outcome : ReviewOutcome) :
    Option (Except ReviewPipelineError ReviewVerdict) × ReviewPipeline :=
  match outcome.head with
  | none => p.recordGeneration generation outcome
  | some head =>
    match p.ledger.noteHead head with
    | (.error _, ledger) =>
      let verdict := .failed .blankGenerationHead
      (some (.ok verdict), (p.setLedger ledger).terminate verdict)
    | (.ok (), ledger) => (p.setLedger ledger).recordGeneration generation outcome

variable {σ : Type}

def reviewLoop (review : Executor σ) (reviewers : ReviewerSet) :
    Nat → Nat → σ → ReviewPipeline →
      Option (Except ReviewPipelineError ReviewVerdict × ReviewPipeline × σ)
  | 0, _, _, _ => none
  | fuel + 1, generation, s, p =>
    let answer := review s { generation := generation, reviewers := reviewers }
    match (p.pushEvent (.generationStarted generation)).runGeneration generation answer.1 with
    | (some result, p) => some (result, p, answer.2)
    | (none, p) => reviewLoop review reviewers fuel (satAdd32 generation 1) answer.2 p

def trigger (fuel : Nat) (p : ReviewPipeline) (changeSet : ChangeSetProfile)
    (review : Executor σ) (s : σ) :
    Option (Except ReviewPipelineError ReviewVerdict × ReviewPipeline × σ) :=
  if p.verdict.isSome then some (.error .alreadyTerminated, p, s)
  else if changeSet.changedFiles.isEmpty then
    some (.ok .skippedEmptyChangeSet, p.terminate .skippedEmptyChangeSet, s)
  else
    match selectReviewers changeSet p.config with
    | .error err => some (.error (.selection err), p, s)
    | .ok reviewers =>
      let opened := { p with reviewers := some reviewers }
      reviewLoop review reviewers fuel 0 s (opened.pushEvent (.triggered reviewers))

end ReviewPipeline
end Delivery

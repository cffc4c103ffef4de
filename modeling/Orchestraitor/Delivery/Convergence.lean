import Orchestraitor.Delivery.Findings

/-!
# Review-loop convergence (`convergence.rs`)

The stop / continue / blocked decision after a completed review generation: five ordered rules
over the findings ledger, the loop configuration, the loop number and the reviewed head.
-/

namespace Delivery
open Base Std

def defaultHardLoopCeiling : Nat := 5

inductive ConvergenceError where
  | noCompletedLoop
  | blankGenerationHead
  | zeroHardLoopCeiling
  | invalidReviewLoopConfig (err : ReviewLoopConfigError)
  deriving DecidableEq

inductive BlockedReason where
  | maxReviewLoops
  | reviewBudgetHardCeiling
  deriving DecidableEq

inductive ConvergenceVerdict where
  | converged
  | continue (nextLoop : Nat)
  | blocked (reason : BlockedReason)

structure ConvergenceInput where
  findingLedger : FindingLedger
  config : ReviewLoopConfig
  completedLoop : Nat
  generationHead : Option String
  blockingThreshold : Severity
  hardLoopCeiling : Nat

namespace ConvergenceInput

def new (findingLedger : FindingLedger) (config : ReviewLoopConfig) (completedLoop : Nat) :
    ConvergenceInput where
  findingLedger := findingLedger
  config := config
  completedLoop := completedLoop
  generationHead := none
  blockingThreshold := config.minimumSeverityToBlock
  hardLoopCeiling := defaultHardLoopCeiling

def withGenerationHead (input : ConvergenceInput) (head : String) : ConvergenceInput :=
  { input with generationHead := some head }

def validate (input : ConvergenceInput) : Except ConvergenceError Unit :=
  match input.config.validate with
  | .error err => .error (.invalidReviewLoopConfig err)
  | .ok () =>
    if input.completedLoop = 0 then .error .noCompletedLoop
    else if input.hardLoopCeiling = 0 then .error .zeroHardLoopCeiling
    else if input.generationHead.any isBlank then .error .blankGenerationHead
    else .ok ()

end ConvergenceInput

/-- most severe first, then by key -/
def blockingOrder (a b : LedgerEntry) : Prop :=
  b.maxSeverity < a.maxSeverity ∨
    (a.maxSeverity = b.maxSeverity ∧ (compare a.id b.id).isLE = true)

instance : DecidableRel blockingOrder := fun a b => by
  unfold blockingOrder
  infer_instance

variable (input : ConvergenceInput)

def blockingFindings : List LedgerEntry :=
  ((input.findingLedger.entries.toList.map Prod.snd).filter
    (fun e => e.blocking input.blockingThreshold)).insertionSort blockingOrder

def LedgerEntry.staleBlocking (minimumToBlock : Severity) (entry : LedgerEntry) : Bool :=
  entry.status == .opened && entry.stale && entry.maxSeverity.blocks minimumToBlock

def staleBlockingCount : Nat :=
  input.findingLedger.entries.countP (fun _ e => e.staleBlocking input.blockingThreshold)

def currentGenerationConfirmed : Bool :=
  match input.generationHead.map trim with
  | none => true
  | some head => input.findingLedger.currentHead == some head

def evaluate : ConvergenceVerdict :=
  let blocking := (blockingFindings input).length
  -- rule 1: hard ceiling with unremediated blocking findings
  if blocking > 0 ∧ input.completedLoop ≥ input.hardLoopCeiling then
    .blocked .reviewBudgetHardCeiling
  -- rule 2: a clean generation, confirmed at the current head
  else if blocking = 0 ∧ input.config.stopWhenNoBlockingFindings = true ∧
      input.completedLoop ≥ 1 ∧ staleBlockingCount input = 0 ∧
      currentGenerationConfirmed input = true then
    .converged
  -- rule 3: configured loop budget exhausted
  else if input.completedLoop ≥ input.config.maxReviewLoops then .blocked .maxReviewLoops
  -- rule 4: never schedule a loop past the ceiling
  else if input.completedLoop ≥ input.hardLoopCeiling then .blocked .reviewBudgetHardCeiling
  -- rule 5: another remediation round remains
  else .continue (satAdd32 input.completedLoop 1)

theorem length_blockingFindings : (blockingFindings input).length =
      input.findingLedger.blockingOpenCount input.blockingThreshold := by
  rw [blockingFindings, List.length_insertionSort, List.filter_map, List.length_map,
    ← List.countP_eq_length_filter]
  rfl

def ConvergenceInput.loopBudget : Nat :=
  min input.config.maxReviewLoops input.hardLoopCeiling

/-- a confirmed generation without stale blockers converges when it is clean and early stopping
is on; otherwise the loop goes on while budget remains and is blocked after that -/
theorem evaluate_confirmed (hloop : 1 ≤ input.completedLoop) (hstale : staleBlockingCount input = 0)
    (hhead : currentGenerationConfirmed input = true) :
    (input.findingLedger.blockingOpenCount input.blockingThreshold = 0 ∧
      input.config.stopWhenNoBlockingFindings = true → evaluate input = .converged) ∧
    (¬ (input.findingLedger.blockingOpenCount input.blockingThreshold = 0 ∧
        input.config.stopWhenNoBlockingFindings = true) → (input.completedLoop < input.loopBudget →
        evaluate input = .continue (satAdd32 input.completedLoop 1)) ∧
      (input.loopBudget ≤ input.completedLoop → ∃ reason, evaluate input = .blocked reason)) := by
  unfold evaluate ConvergenceInput.loopBudget
  rw [length_blockingFindings]
  generalize input.findingLedger.blockingOpenCount input.blockingThreshold = blocking
  constructor
  · rintro ⟨hclean, hstop⟩
    rw [if_neg (by omega), if_pos ⟨hclean, hstop, hloop, hstale, hhead⟩]
  · intro hno
    have hrule2 : ¬ (blocking = 0 ∧ input.config.stopWhenNoBlockingFindings = true ∧
        input.completedLoop ≥ 1 ∧ staleBlockingCount input = 0 ∧
        currentGenerationConfirmed input = true) := fun h => hno ⟨h.1, h.2.1⟩
    constructor
    · intro _
      rw [if_neg (by omega), if_neg hrule2, if_neg (by omega), if_neg (by omega)]
    · intro _
      by_cases hceil : blocking > 0 ∧ input.completedLoop ≥ input.hardLoopCeiling
      · exact ⟨_, if_pos hceil⟩
      · rw [if_neg hceil, if_neg hrule2]
        by_cases hmax : input.completedLoop ≥ input.config.maxReviewLoops
        · exact ⟨_, if_pos hmax⟩
        · rw [if_neg hmax]
          exact ⟨_, if_pos (by omega)⟩

end Delivery

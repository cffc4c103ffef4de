import Orchestraitor.Delivery.Metadata

/-!
# Review-loop parameters (`review_loop.rs`)

`Severity` with its declaration order and the structural check of the review-loop configuration.
The check is shared by the backlog runner and the review pipeline.
-/

namespace Delivery
open Base

inductive Severity where
  | minimal | suggestion | low | medium | high | critical
  deriving DecidableEq

namespace Severity

def rank : Severity → Nat
  | minimal => 0
  | suggestion => 1
  | low => 2
  | medium => 3
  | high => 4
  | critical => 5

theorem rank_injective : Function.Injective rank := by
  intro a b h
  cases a <;> cases b <;> first | rfl | exact absurd h (by decide)

instance : LinearOrder Severity := LinearOrder.lift' rank rank_injective

def blocks (s minimumToBlock : Severity) : Bool := decide (minimumToBlock ≤ s)

end Severity

inductive ReviewLoopConfigError where
  | zeroMaxReviewLoops
  | zeroMaxReviewers
  | blankReviewerDomain
  deriving DecidableEq

structure ReviewLoopConfig where
  maxReviewLoops : Nat := 3
  maxReviewers : Nat := 5
  requiredReviewerDomains : List DomainId := ["security"]
  minimumSeverityToBlock : Severity := .high
  allowSameModel : Bool := false
  requireProviderDiversity : Bool := false
  requireHumanReview : Bool := false
  stopWhenNoBlockingFindings : Bool := true

namespace ReviewLoopConfig

def validate (c : ReviewLoopConfig) : Except ReviewLoopConfigError Unit :=
  if c.maxReviewLoops = 0 then .error .zeroMaxReviewLoops
  else if c.maxReviewers = 0 then .error .zeroMaxReviewers
  else if c.requiredReviewerDomains.any isBlank then .error .blankReviewerDomain
  else .ok ()

theorem validate_ok {c : ReviewLoopConfig} (h : c.validate = .ok ()) :
    0 < c.maxReviewLoops ∧ 0 < c.maxReviewers := by
  rw [validate] at h
  split_ifs at h with h1 h2
  exact ⟨by omega, by omega⟩

/-- `ReviewLoopConfig::default` passes its own check -/
example : ({} : ReviewLoopConfig).validate = .ok () := rfl

end ReviewLoopConfig
end Delivery

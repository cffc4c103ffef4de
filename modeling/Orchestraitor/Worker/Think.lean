import Orchestraitor.Base.Prim

/-!
# The thought chain of a run (`think.rs`)

The counters behind the budgets and the ordering rule of the `think` tool, and the record that every
call of it leaves.
-/

namespace Worker
open Base

/-! ## refusal reasons -/

def reasonThoughtEmpty : String := "thought-empty"
def reasonThoughtTooLarge : String := "thought-too-large"
def reasonThoughtNumberRegressed : String := "thought-number-regressed"
def reasonRevisionTargetUnknown : String := "revision-target-unknown"
def reasonThoughtBudgetExhausted : String := "thought-budget-exhausted"
def reasonSecretShapedContent : String := "secret-shaped-content"
def reasonBranchingNotSupported : String := "branching-not-supported-in-v1"

def maxThoughtsPerSequence : Nat := 256
def maxThoughtsPerRun : Nat := 512

/-! ## records -/

structure ReasoningRecord where
  accepted : Bool
  refusalReason : Option String
  thoughtNumber : Nat
  totalThoughts : Nat
  nextThoughtNeeded : Bool
  isRevision : Bool
  /-- `none` unless `isRevision` -/
  revisesThought : Option Nat
  thoughtChars : Nat
  sequenceId : Nat
  /-- only with payload recording, and only for an accepted thought -/
  thoughtText : Option String

/-! ## the chain -/

structure ThoughtChain where
  /-- highest accepted number of the current sequence -/
  highestNumber : Nat
  sequenceCount : Nat
  runCount : Nat
  sequenceId : Nat
  /-- the last accepted thought said that no more are needed -/
  sequenceClosed : Bool

namespace ThoughtChain

def new : ThoughtChain :=
  { highestNumber := 0, sequenceCount := 0, runCount := 0, sequenceId := 1, sequenceClosed := false }

def validate (chain : ThoughtChain) (thoughtNumber totalThoughts : Nat) (isRevision : Bool)
    (revisesThought : Option Nat) : Except String Unit :=
  if maxThoughtsPerRun ≤ chain.runCount then .error reasonThoughtBudgetExhausted
  else if isRevision then
    match revisesThought with
    | none => .error reasonRevisionTargetUnknown
    | some target =>
      if maxThoughtsPerSequence ≤ chain.sequenceCount then .error reasonThoughtBudgetExhausted
      else if target = 0 ∨ chain.highestNumber = 0 ∨ chain.highestNumber < target ∨
          thoughtNumber = 0 ∨ chain.highestNumber < thoughtNumber ∨
          maxThoughtsPerSequence < thoughtNumber then
        .error reasonRevisionTargetUnknown
      else .ok ()
  else if totalThoughts = 0 then .error reasonThoughtNumberRegressed
  else if thoughtNumber = 1 ∧ chain.sequenceClosed then .ok ()
  else if maxThoughtsPerSequence < thoughtNumber then .error reasonThoughtBudgetExhausted
  else if thoughtNumber ≤ chain.highestNumber then .error reasonThoughtNumberRegressed
  else .ok ()

def accept (chain : ThoughtChain) (thoughtNumber : Nat) (nextThoughtNeeded isRevision : Bool) :
    ThoughtChain :=
  -- step 1 after a closed sequence opens a new one; a revision goes back to the old one
  let chain := if !isRevision && thoughtNumber == 1 && chain.sequenceClosed then
      { chain with
        sequenceId := satAdd32 chain.sequenceId 1, highestNumber := 0, sequenceCount := 0 }
    else chain
  { chain with
    sequenceClosed := !nextThoughtNeeded
    highestNumber := max chain.highestNumber thoughtNumber
    sequenceCount := satAdd32 chain.sequenceCount 1
    runCount := satAdd32 chain.runCount 1 }

end ThoughtChain

end Worker

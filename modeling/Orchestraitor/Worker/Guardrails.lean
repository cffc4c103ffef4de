import Orchestraitor.Worker.Tools

/-!
# Anti-stuck guards (`guardrails.rs`)

`ChurnWindow.observe_of_sees` ties the window to everything it was shown: it holds the last
`window` shapes, and fires by counting the newest among them.
-/

namespace Worker
open Base

structure GuardrailsConfig where
  noProgressTurns : Nat
  toolRepeatCount : Nat
  toolRepeatWindow : Nat
  ciPollBudget : Nat

namespace GuardrailsConfig

def bootstrapDefaults : GuardrailsConfig :=
  { noProgressTurns := 5, toolRepeatCount := 4, toolRepeatWindow := 8
    ciPollBudget := 30 * 60 * 1000000000 }

def noProgressEnabled (config : GuardrailsConfig) : Bool := 0 < config.noProgressTurns

def churnEnabled (config : GuardrailsConfig) : Bool :=
  1 < config.toolRepeatCount && 0 < config.toolRepeatWindow

def pollBudgetEnabled (config : GuardrailsConfig) : Bool := config.ciPollBudget ≠ 0

end GuardrailsConfig

/-! ## call shapes -/

inductive ExitClass where
  | ok | nonZero | none
  deriving DecidableEq

structure ToolCallShape where
  tool : String
  argShape : String
  exitClass : ExitClass
  deriving DecidableEq

def bucketFrom (chars : Nat) : Nat → Nat → Nat
  | 0, size => size
  | rounds + 1, size => if size < 64 ∧ size < chars then bucketFrom chars rounds (size * 2) else size

def patternBucket (chars : Nat) : Nat := bucketFrom chars 6 1

def isAssignmentName (name : List Char) : Bool :=
  !name.isEmpty && name.all (fun c => c.isAlphanum || c = '_') && !(name.headD '_').isDigit

/-- drops leading `VAR=x` words; a word is at least one character, so the length bounds the rounds -/
def dropAssignments : Nat → List Char → List Char
  | 0, rest => rest
  | rounds + 1, rest =>
    if '=' ∈ rest ∧ isAssignmentName (rest.takeWhile (· ≠ '=')) then
      match rest.dropWhile (!isWhitespace ·) with
      | [] => rest
      | more => dropAssignments rounds (more.dropWhile isWhitespace)
    else rest

def isQuote (c : Char) : Bool := c = '\'' || c = '"'

def bashFirstWord (script : String) : String :=
  let rest := dropAssignments script.length (script.toList.dropWhile isWhitespace)
  let word := rest.takeWhile (!isWhitespace ·)
  String.ofList (((word.dropWhile isQuote).reverse.dropWhile isQuote).reverse.take 64)

def exitClassOf (receipt : ToolReceipt) : ExitClass :=
  match receipt.exitCode with
  | some code => if code = 0 then .ok else .nonZero
  | none => if receipt.outcome = .completed then .ok else .none

def argShapeOf : WorkerAction → String
  | .bash script => "bash:" ++ bashFirstWord script
  | .readFile path | .writeFile path _ => "path:" ++ path
  | .search pattern _ => "pattern:" ++ toString (patternBucket pattern.length)
  | .declaredTool toolId _ => "declared:" ++ toolId
  | .think _ thoughtNumber _ _ _ _ _ _ => "think-step:" ++ toString thoughtNumber
  | .finish _ _ => "finish"

def toolCallShape (action : WorkerAction) (receipt : ToolReceipt) : ToolCallShape :=
  { tool := receipt.tool, argShape := argShapeOf action, exitClass := exitClassOf receipt }

/-! ## churn -/

structure ChurnWindow where
  window : Nat
  repeatCount : Nat
  shapes : List ToolCallShape

/-- the newest shape occurs at least `count` times among the last `window` ones -/
def churns (count window : Nat) (shapes : List ToolCallShape) : Prop :=
  ∃ newest ∈ shapes.getLast?, count ≤ (shapes.rtake window).count newest

instance (count window : Nat) (shapes : List ToolCallShape) :
    Decidable (churns count window shapes) :=
  inferInstanceAs (Decidable (∃ newest ∈ shapes.getLast?, _))

namespace ChurnWindow

def new (config : GuardrailsConfig) : ChurnWindow :=
  { window := if config.churnEnabled then config.toolRepeatWindow else 0
    repeatCount := max config.toolRepeatCount 2
    shapes := [] }

def observe (w : ChurnWindow) (shape : ToolCallShape) : Bool × ChurnWindow :=
  if w.window = 0 then (false, w)
  else
    let shapes := (w.shapes ++ [shape]).rtake w.window
    let fired := match shapes.getLast? with
      | none => false
      | some newest => w.repeatCount ≤ (shapes.filter (· = newest)).length
    (fired, { w with shapes })

end ChurnWindow

/-! ## no progress -/

structure NoProgressGuard where
  threshold : Nat
  streak : Nat
  last : Option UInt64

namespace NoProgressGuard

def new (config : GuardrailsConfig) : NoProgressGuard :=
  { threshold := config.noProgressTurns, streak := 0, last := none }

def observe (g : NoProgressGuard) (fingerprint : UInt64) : Bool × NoProgressGuard :=
  if g.threshold = 0 then (false, g)
  else
    let g := if g.last = some fingerprint then { g with streak := g.streak + 1 }
      else { g with streak := 1, last := some fingerprint }
    (g.threshold ≤ g.streak, g)

end NoProgressGuard

/-! ## polling -/

def containsText (text needle : String) : Bool := needle.toList <:+: text.toList

def pollShaped (script : String) : Bool :=
  let rest := script.map Char.toLower
  let ciWait := ["gh pr checks", "gh run watch", "gh run list", "gh pr view", "--watch"].any
    (containsText rest)
  let tokens := rest.toList.splitOnP fun c => isWhitespace c || c = ';' || c = '&'
  ciWait && ("sleep".toList ∈ tokens || containsText rest "gh run watch" ||
    containsText rest "--watch")

structure PollBudget where
  budget : Nat
  spent : Nat

namespace PollBudget

def new (config : GuardrailsConfig) : PollBudget := { budget := config.ciPollBudget, spent := 0 }

def charge (p : PollBudget) (elapsed : Nat) : Bool × PollBudget :=
  if p.budget = 0 then (false, p)
  else
    let p := { p with spent := satAddDuration p.spent elapsed }
    (p.budget < p.spent, p)

end PollBudget

/-! ## the window and its history -/

section rtake
variable {α : Type}

theorem rtake_eq_rtake_succ (l : List α) (n : Nat) : (l.rtake (n + 1)).rtake n = l.rtake n := by
  simp only [List.rtake_eq_reverse_take_reverse, List.reverse_reverse, List.take_take]
  rw [Nat.min_eq_left (Nat.le_succ n)]

theorem rtake_rtake_concat {n : Nat} (hn : 0 < n) (l : List α) (x : α) :
    (l.rtake n ++ [x]).rtake n = (l ++ [x]).rtake n := by
  obtain ⟨n, rfl⟩ : ∃ k, n = k + 1 := ⟨n - 1, by omega⟩
  rw [List.rtake_concat_succ, List.rtake_concat_succ, rtake_eq_rtake_succ]

end rtake

/-- the window of an enabled guard that was shown `history` -/
structure ChurnWindow.Sees (w : ChurnWindow) (config : GuardrailsConfig)
    (history : List ToolCallShape) : Prop where
  window : w.window = config.toolRepeatWindow
  count : w.repeatCount = config.toolRepeatCount
  shapes : w.shapes = history.rtake config.toolRepeatWindow

theorem GuardrailsConfig.churnEnabled_iff {config : GuardrailsConfig} :
    config.churnEnabled = true ↔ 2 ≤ config.toolRepeatCount ∧ 1 ≤ config.toolRepeatWindow := by
  simp only [churnEnabled, Bool.and_eq_true, decide_eq_true_eq]
  exact Iff.rfl

namespace ChurnWindow
variable {config : GuardrailsConfig}

theorem sees_new (h : config.churnEnabled = true) : (new config).Sees config [] := by
  have hK := (GuardrailsConfig.churnEnabled_iff.mp h).1
  exact ⟨by simp [new, h], by simp [new, hK], by simp [new]⟩

theorem observe_of_sees (h : config.churnEnabled = true) {w : ChurnWindow}
    {history : List ToolCallShape} (hw : w.Sees config history) (shape : ToolCallShape) :
    ((w.observe shape).1 = true ↔
      churns config.toolRepeatCount config.toolRepeatWindow (history ++ [shape])) ∧
    (w.observe shape).2.Sees config (history ++ [shape]) := by
  have hW : 0 < config.toolRepeatWindow := (GuardrailsConfig.churnEnabled_iff.mp h).2
  have hshapes : (w.shapes ++ [shape]).rtake w.window =
      (history ++ [shape]).rtake config.toolRepeatWindow := by
    rw [hw.shapes, hw.window, rtake_rtake_concat hW]
  have hlast : ((history ++ [shape]).rtake config.toolRepeatWindow).getLast? = some shape := by
    obtain ⟨n, hn⟩ : ∃ k, config.toolRepeatWindow = k + 1 :=
      ⟨config.toolRepeatWindow - 1, by omega⟩
    rw [hn, List.rtake_concat_succ, List.getLast?_concat]
  have hne : w.window ≠ 0 := by
    rw [hw.window]
    omega
  unfold observe
  rw [if_neg hne]
  simp only [hshapes, hlast, decide_eq_true_eq]
  refine ⟨?_, hw.window, hw.count, rfl⟩
  unfold churns
  simp only [List.getLast?_concat, Option.mem_def, Option.some.injEq, exists_eq_left', hw.count]
  rw [List.count, List.countP_eq_length_filter]
  rfl

end ChurnWindow

end Worker

import Orchestraitor.Base.Prim

/-!
# The escalation ladder (`escalation.rs`)

An `EscalationState` carries that its policy passed validation and that its current step is on the
ladder; `level` is the position of that step.
-/

namespace Delivery
open Base

inductive EscalationStep where
  | sameAgentFreshContext | alternateModel | domainExpert | revisedPlan | humanEscalation
  deriving DecidableEq

namespace EscalationStep

def rank : EscalationStep → Nat
  | sameAgentFreshContext => 0
  | alternateModel => 1
  | domainExpert => 2
  | revisedPlan => 3
  | humanEscalation => 4

theorem rank_injective : Function.Injective rank := by
  intro a b h
  cases a <;> cases b <;> first | rfl | exact absurd h (by decide)

instance : LinearOrder EscalationStep := LinearOrder.lift' rank rank_injective

end EscalationStep

inductive EscalationPolicyError where
  | emptyLadder
  | stepsOutOfOrder
  | missingHumanEscalation

structure EscalationPolicy where
  steps : List EscalationStep :=
    [.sameAgentFreshContext, .alternateModel, .domainExpert, .revisedPlan, .humanEscalation]

namespace EscalationPolicy

/-- `steps.windows(2).all(|pair| pair[0] < pair[1])` -/
def inOrder : List EscalationStep → Bool
  | a :: b :: rest => decide (a < b) && inOrder (b :: rest)
  | _ => true

def validate (p : EscalationPolicy) : Except EscalationPolicyError Unit :=
  if p.steps.isEmpty then .error .emptyLadder
  else if !inOrder p.steps then .error .stepsOutOfOrder
  else if p.steps.getLast? ≠ some .humanEscalation then .error .missingHumanEscalation
  else .ok ()

example : ({} : EscalationPolicy).validate = .ok () := rfl

theorem pairwise_of_inOrder {l : List EscalationStep} (h : inOrder l = true) :
    l.Pairwise (· < ·) := by
  rw [← List.isChain_iff_pairwise]
  induction l with
  | nil => exact .nil
  | cons a l ih =>
    cases l with
    | nil => exact .singleton a
    | cons =>
      rw [inOrder, Bool.and_eq_true, decide_eq_true_eq] at h
      exact .cons_cons h.1 (ih h.2)

theorem validate_ok {p : EscalationPolicy} (h : p.validate = .ok ()) :
    p.steps.Pairwise (· < ·) ∧ p.steps.getLast? = some .humanEscalation := by
  rw [validate] at h
  split_ifs at h with h1 h2 h3
  exact ⟨pairwise_of_inOrder (by simpa using h2), not_not.mp h3⟩

theorem nodup_steps {p : EscalationPolicy} (h : p.validate = .ok ()) : p.steps.Nodup :=
  (validate_ok h).1.imp (fun hab => ne_of_lt hab)

theorem length_pos {p : EscalationPolicy} (h : p.validate = .ok ()) : 0 < p.steps.length := by
  rw [List.length_pos_iff]
  intro e
  have := (validate_ok h).2
  rw [e] at this
  exact absurd this (by simp)

end EscalationPolicy

/-! ## per-task progress -/

structure EscalationState where
  policy : EscalationPolicy
  currentStep : EscalationStep
  attemptsAtCurrentStep : Nat
  history : List EscalationStep
  valid : policy.validate = .ok ()
  onLadder : currentStep ∈ policy.steps

namespace EscalationState

def new (policy : EscalationPolicy) : Except EscalationPolicyError EscalationState :=
  match hv : policy.validate with
  | .error e => .error e
  | .ok () =>
    match hh : policy.steps.head? with
    | none => .error .emptyLadder
    | some step => .ok {
        policy := policy
        currentStep := step
        attemptsAtCurrentStep := 0
        history := []
        valid := hv
        onLadder := List.mem_of_mem_head? hh }

variable (s : EscalationState)

def recordFailure : EscalationState :=
  { s with attemptsAtCurrentStep := satAdd32 s.attemptsAtCurrentStep 1 }

def nextStep : Option EscalationStep :=
  match s.policy.steps.findIdx? (· == s.currentStep) with
  | none => none
  | some position => s.policy.steps[position + 1]?

theorem mem_of_nextStep {step : EscalationStep} (h : s.nextStep = some step) :
    step ∈ s.policy.steps := by
  rw [nextStep] at h
  split at h
  · exact absurd h (by simp)
  · exact List.mem_of_getElem? h

def advance : Option EscalationStep × EscalationState :=
  match h : s.nextStep with
  | none => (none, s)
  | some next => (some next, { s with
      history := s.history ++ [s.currentStep]
      currentStep := next
      attemptsAtCurrentStep := 0
      onLadder := s.mem_of_nextStep h })

def exhausted : Bool := s.currentStep == .humanEscalation

/-! ## levels -/

def level : Nat := s.policy.steps.idxOf s.currentStep

theorem level_lt : s.level < s.policy.steps.length := List.idxOf_lt_length_of_mem s.onLadder

theorem steps_level : s.policy.steps[s.level]? = some s.currentStep :=
  List.getElem?_idxOf s.onLadder

theorem nextStep_eq : s.nextStep = s.policy.steps[s.level + 1]? := by
  have h : s.policy.steps.findIdx? (· == s.currentStep) = some s.level :=
    List.findIdx?_eq_some_of_exists ⟨s.currentStep, s.onLadder, beq_self_eq_true _⟩
  rw [nextStep, h]

theorem exhausted_iff : s.exhausted = true ↔ s.level + 1 = s.policy.steps.length := by
  have hpos := EscalationPolicy.length_pos s.valid
  have hlast : s.policy.steps[s.policy.steps.length - 1]? = some .humanEscalation := by
    rw [← List.getLast?_eq_getElem?]
    exact (EscalationPolicy.validate_ok s.valid).2
  rw [exhausted, beq_iff_eq]
  constructor
  · intro e
    have hl := s.steps_level
    rw [e] at hl
    have := (List.getElem?_inj s.level_lt (EscalationPolicy.nodup_steps s.valid)).mp
      (hl.trans hlast.symm)
    omega
  · intro e
    have hl := s.steps_level
    rw [show s.level = s.policy.steps.length - 1 by omega, hlast] at hl
    exact (Option.some.inj hl).symm

theorem advance_level (h : s.exhausted = false) :
    ∃ step, s.advance.1 = some step ∧ s.advance.2.currentStep = step ∧ s.currentStep < step ∧
      s.advance.2.policy = s.policy ∧ s.advance.2.level = s.level + 1 ∧
      s.advance.2.attemptsAtCurrentStep = 0 := by
  have hlt : s.level + 1 < s.policy.steps.length := by
    have h1 := s.level_lt
    have h2 := mt s.exhausted_iff.mpr (by simp [h])
    omega
  obtain ⟨step, hstep⟩ : ∃ step, s.nextStep = some step := by
    rw [nextStep_eq]
    exact ⟨_, List.getElem?_eq_getElem hlt⟩
  have hat : s.policy.steps[s.level + 1]? = some step := by rw [← nextStep_eq, hstep]
  have hadv : s.advance = (some step, { s with
      history := s.history ++ [s.currentStep]
      currentStep := step
      attemptsAtCurrentStep := 0
      onLadder := s.mem_of_nextStep hstep }) := by
    unfold advance
    split
    · next hn => rw [hstep] at hn; exact absurd hn (by simp)
    · next x hx =>
      have : x = step := Option.some.inj (hx.symm.trans hstep)
      subst this
      rfl
  rw [hadv]
  refine ⟨step, rfl, rfl, ?_, rfl, ?_, rfl⟩
  · have hpw := (EscalationPolicy.validate_ok s.valid).1
    have hcur := List.getElem?_eq_some_iff.mp s.steps_level
    have hnext := List.getElem?_eq_some_iff.mp hat
    obtain ⟨h1, e1⟩ := hcur
    obtain ⟨h2, e2⟩ := hnext
    rw [← e1, ← e2]
    exact List.pairwise_iff_getElem.mp hpw _ _ h1 h2 (Nat.lt_succ_self _)
  · show s.policy.steps.idxOf step = s.level + 1
    obtain ⟨h2, e2⟩ := List.getElem?_eq_some_iff.mp hat
    rw [← e2]
    exact (EscalationPolicy.nodup_steps s.valid).idxOf_getElem _ h2

theorem advance_exhausted (h : s.exhausted = true) : s.advance = (none, s) := by
  have hn : s.nextStep = none := by
    rw [nextStep_eq, List.getElem?_eq_none_iff, ← s.exhausted_iff.mp h]
  unfold advance
  split
  · rfl
  · next x hx => rw [hn] at hx; exact absurd hx (by simp)

theorem advance_policy : s.advance.2.policy = s.policy := by
  cases hx : s.exhausted with
  | true => rw [s.advance_exhausted hx]
  | false =>
    obtain ⟨_, _, _, _, hp, _⟩ := s.advance_level hx
    exact hp

theorem new_level {policy : EscalationPolicy} {e : EscalationState} (h : new policy = .ok e) :
    e.policy = policy ∧ e.level = 0 ∧ e.attemptsAtCurrentStep = 0 := by
  unfold new at h
  split at h
  · exact absurd h (by simp)
  · split at h
    · exact absurd h (by simp)
    · next step hh =>
      rw [← Except.ok.inj h]
      refine ⟨rfl, ?_, rfl⟩
      show policy.steps.idxOf step = 0
      obtain ⟨l, hl⟩ : ∃ l, policy.steps = step :: l := by
        cases hp : policy.steps with
        | nil => rw [hp] at hh; exact absurd hh (by simp)
        | cons a l => rw [hp] at hh; exact ⟨l, by rw [Option.some.inj hh]⟩
      rw [hl, List.idxOf_cons_self]

theorem new_ok {policy : EscalationPolicy} (h : policy.validate = .ok ()) :
    ∃ e, new policy = .ok e := by
  unfold new
  split
  · next e he => rw [h] at he; exact absurd he (by simp)
  · split
    · next hn =>
      have := EscalationPolicy.length_pos h
      rw [List.head?_eq_none_iff] at hn
      rw [hn] at this
      exact absurd this (by simp)
    · exact ⟨_, rfl⟩

end EscalationState
end Delivery

import Orchestraitor.Worker.Run

/-!
# Rules for the calls of a worker

`Rules m J R` says what a monitor `m` must make of the calls of a worker for a run to be followed: as
long as `J` holds every call other than a delivery is permitted, only a model call tells it
something, and a response leaves it in `R` with the text.
-/

namespace Worker
open Base Base.Calls

def Query.isQuiet : Query → Bool
  | .stream _ | .deliver _ => false
  | _ => true

theorem Query.isQuiet_of_isTool {q : Query} (h : q.isTool = true) : q.isQuiet = true := by
  cases q <;> first | rfl | exact absurd h Bool.false_ne_true

variable {κ : Type} {m : Monitor Answer κ} {J : κ → Prop} {R : κ → String → Prop} {k : κ}

/-- what a monitor must allow of a run: `J` lasts, and `R` holds of every response -/
structure Rules (m : Monitor Answer κ) (J : κ → Prop) (R : κ → String → Prop) : Prop where
  quiet : ∀ k q, J k → q.isQuiet = true → m.permits k q ∧ ∀ a, m.next k q a = k
  stream : ∀ k request, J k → m.permits k (.stream request)
  answer : ∀ k request a, J k → m.expects k (.stream request) a → J (m.next k (.stream request) a) ∧
    ∀ events text usage, a = .ok events → collectEvents events = .ok (text, usage) →
      R (m.next k (.stream request) a) text

theorem Rules.within (rules : Rules m J R) {α : Type} {x : Calls Answer α} {post : α → Prop}
    (hx : x.Within (·.isQuiet) post) (hJ : J k) : x.Keeps m (fun a k' => post a ∧ k' = k) k :=
  hx.keeps fun q hq => rules.quiet k q hJ hq

theorem Rules.call (rules : Rules m J R) {α : Type} {q : Query} {f : Answer q → Calls Answer α}
    {post : α → κ → Prop} (hJ : J k) (hq : q.isQuiet = true) (h : ∀ a, (f a).Keeps m post k) :
    (Calls.call q f).Keeps m post k := by
  refine ⟨(rules.quiet k q hJ hq).1, fun a _ => ?_⟩
  rw [(rules.quiet k q hJ hq).2 a]
  exact h a

/-! ## one model call -/

/-- the counters of a run after part of a model call that reached the transport `n` times -/
structure Reached (n : Nat) (state state' : RunState) : Prop where
  turns : state'.turns = state.turns
  started : state'.started = state.started
  modelCalls : state'.modelCalls = state.modelCalls + n

theorem recordCallCost_within (config : WorkerConfig) (request : ModelRequest)
    (usage : Option TokenCount) (completed : Bool) (state : RunState) :
    (recordCallCost config request usage completed state).Within (·.isQuiet) (Reached 0 state) := by
  unfold recordCallCost
  split
  · exact ⟨rfl, rfl, rfl⟩
  · exact ⟨rfl, fun _ => ⟨rfl, rfl, rfl⟩⟩

theorem collectFrom_error {text : String} {usage : Option TokenCount} {completed : Bool}
    {events : List (Option ModelEvent)} {failure : TypedFailure × Option TokenCount}
    (h : collectFrom text usage completed events = .error failure) :
    failure.1.cls = .providerError := by
  fun_induction collectFrom text usage completed events with
  | case1 | case2 | case3 | case8 => cases h <;> rfl
  | case4 _ _ _ _ ih | case5 _ _ _ _ ih | case6 _ _ _ _ _ ih | case7 _ _ _ _ _ ih => exact ih h

def Responds (config : WorkerConfig) (R : κ → String → Prop) (state : RunState)
    (r : Except TypedFailure String × RunState) (k : κ) : Prop :=
  (∃ n, n ≤ config.budgets.maxProviderRetries + 1 ∧ Reached n state r.2) ∧
    match r.1 with
    | .ok text => R k text
    | .error failure => failure.cls = .providerError

variable (rules : Rules m J R)
include rules

theorem callModelStep_keeps {config : WorkerConfig} {request : ModelRequest} {state : RunState}
    {s : Nat × RunState} (hJ : J k) (hs : s.1 ≤ config.budgets.maxProviderRetries)
    (hr : Reached s.1 state s.2) :
    (callModelStep config request s).Keeps m (fun r k' => J k' ∧ r.elim
      (fun s' => s'.1 = s.1 + 1 ∧ s'.1 ≤ config.budgets.maxProviderRetries ∧
        Reached s'.1 state s'.2) (fun v => Responds config R state v k')) k := by
  have hcalled : ∀ state', Reached 0 s.2.countCall state' → Reached (s.1 + 1) state state' :=
    fun state' h => ⟨h.turns.trans hr.turns, h.started.trans hr.started, by
      rw [h.modelCalls, RunState.countCall, hr.modelCalls]
      rfl⟩
  set post : (Nat × RunState) ⊕ (Except TypedFailure String × RunState) → κ → Prop := fun r k' =>
    J k' ∧ r.elim _ (fun v => Responds config R state v k') with hpost
  refine ⟨rules.stream k request hJ, fun a ha => ?_⟩
  obtain ⟨hJ', htext⟩ := rules.answer k request a hJ ha
  -- the four ways in which the call fails end with a cost row and a provider error
  have hfail : ∀ (usage : Option TokenCount) (failure : TypedFailure),
      failure.cls = .providerError →
      Calls.Keeps m post (recordCallCost config request usage false s.2.countCall >>= fun state =>
        .ret (.inr (.error failure, state))) (m.next k (.stream request) a) := by
    intro _ _ hf
    rw [keeps_bind]
    apply (rules.within (recordCallCost_within ..) hJ').mono
    rintro state' k' ⟨hst, rfl⟩
    exact ⟨hJ', ⟨s.1 + 1, by omega, hcalled _ hst⟩, hf⟩
  match a with
  | .ok events =>
    dsimp only
    split
    next text usage hc =>
      rw [keeps_bind]
      apply (rules.within (recordCallCost_within ..) hJ').mono
      rintro state' k' ⟨hst, rfl⟩
      exact ⟨hJ', ⟨s.1 + 1, by omega, hcalled _ ⟨hst.turns, hst.started, hst.modelCalls⟩⟩,
        htext events text usage rfl hc⟩
    next failure usage hc => exact hfail usage failure (collectFrom_error hc)
  | .error .requestFailed =>
    rw [keeps_bind]
    apply (rules.within (recordCallCost_within ..) hJ').mono
    rintro state' k' ⟨hst, rfl⟩
    split
    · exact ⟨hJ', ⟨s.1 + 1, by omega, hcalled _ hst⟩, rfl⟩
    · exact rules.call hJ' rfl fun _ => ⟨hJ', rfl, by omega, hcalled _ hst⟩
  | .error .invalidEvent => exact hfail none _ rfl
  | .error .capabilityUnavailable => exact hfail none _ rfl

theorem callModel_keeps (config : WorkerConfig) (messages : List ModelMessage) (state : RunState)
    (hJ : J k) : (callModel config messages state).Keeps m
      (fun r k' => ∃ v, r = some v ∧ J k' ∧ Responds config R state v k') k := by
  apply keeps_loop_some
    (I := fun s k => J k ∧ s.1 ≤ config.budgets.maxProviderRetries ∧ Reached s.1 state s.2)
    (μ := fun s => config.budgets.maxProviderRetries - s.1)
  · rintro s k ⟨hJ, hs, hr⟩
    apply (callModelStep_keeps rules hJ hs hr).mono
    rintro (s' | v) k' ⟨hJ', h⟩
    · obtain ⟨h1, h2, h3⟩ := h
      exact ⟨⟨hJ', h2, h3⟩, by omega⟩
    · exact ⟨hJ', h⟩
  · exact ⟨hJ, Nat.zero_le _, rfl, rfl, rfl⟩
  · simp only [Nat.sub_zero]
    omega

end Worker

import Orchestraitor.Worker.RunRules

/-!
# A run ends, within its budgets, and delivers at most once

`WithinBudgets` bounds the counters of a run by its configuration; `DeliversOnce` is what the trace of
a run says about the delivery seam.  Both are proved along the three nested loops, for any seams that
follow the rules of a monitor (`runWorkerWith_keeps`), first for a sub-session and then for the run
that spawns it.  `run_worker_bounded` puts them together for every environment.
-/

namespace Worker
open Base Base.Calls List

/-! ## statements -/

/-- the counters of a run are bounded by its configuration -/
structure WithinBudgets (config : WorkerConfig) (run : WorkerRun) : Prop where
  attempts_le : run.attempts ≤ max 1 config.budgets.maxAttempts
  /-- a re-plan is counted before the deadline that may forbid its attempt is checked -/
  replans : run.replans + 1 = run.attempts ∨
    run.replans = run.attempts ∧ run.failure.map (·.cls) = some .workerTimeout
  replans_le : run.replans ≤ config.budgets.maxReplans
  turns_le : run.turns ≤ run.attempts * config.budgets.maxTurnsPerAttempt
  modelCalls_le : run.modelCalls ≤ run.turns * (config.budgets.maxProviderRetries + 1)
  endings_length : run.endings.length = run.attempts
  /-- only the last attempt can have ended with a failure that forbids another one -/
  endings_replannable : ∀ failure, .failed failure ∈ run.endings.dropLast →
    failure.cls.replanFatal = false

/-- the counters are `u32`s: they do not wrap under budgets whose product is one -/
theorem WithinBudgets.counters_fit {config : WorkerConfig} {run : WorkerRun}
    (h : WithinBudgets config run)
    (hfit : max 1 config.budgets.maxAttempts * config.budgets.maxTurnsPerAttempt *
      (config.budgets.maxProviderRetries + 1) ≤ u32Max) :
    run.turns ≤ u32Max ∧ run.modelCalls ≤ u32Max := by
  have hturns : run.turns ≤ max 1 config.budgets.maxAttempts * config.budgets.maxTurnsPerAttempt :=
    h.turns_le.trans (Nat.mul_le_mul_right _ h.attempts_le)
  have hcalls := h.modelCalls_le.trans (Nat.mul_le_mul_right _ hturns)
  exact ⟨hturns.trans ((Nat.le_mul_of_pos_right _ (Nat.succ_pos _)).trans hfit), hcalls.trans hfit⟩

/-- the text of a model call that succeeded -/
def responseOf : Sigma Answer → Option String
  | ⟨.stream _, .ok events⟩ => match collectEvents events with
    | .ok (text, _) => some text
    | .error _ => none
  | _ => none

def lastResponse (trace : List (Sigma Answer)) : Option String :=
  (trace.filterMap responseOf).getLast?

/-- the delivery seam is called once at most, as the last call, on a response that finishes the task
with success -/
def DeliversOnce (helpers : Helpers) (trace : List (Sigma Answer)) : Prop :=
  ∀ before request answer after, trace = before ++ ⟨.deliver request, answer⟩ :: after →
    after = [] ∧ ∃ text, lastResponse before = some text ∧
      helpers.parseAction text = .ok (.finish request.summary true)

/-- a call of the loops' own: neither one of the model nor of a tool, nor a delivery -/
def Query.isLoop : Query → Bool
  | .canonicalRoot _ | .now | .recordCost _ | .sleep _ | .progressFingerprint _ _ => true
  | _ => false

/-- all that a refused call of `bash` did: the mediator refused its script; the read-only stub does so
without a call -/
def Executor.RefusedBash (ex : Executor) (reason : String) (calls : List (Sigma Answer)) : Prop :=
  match ex.bash with
  | .readOnlyStub => calls = []
  | mediator => ∃ script error, reason = mediationReason error ∧
    (calls = [⟨.runBash mediator script, .error error⟩] ∨
      ∃ bound, calls = [⟨.runBashWithin bound mediator script, some (.error error)⟩])

/-- the calls in which a turn fails: the delivery, or the dispatch of the action that the model asked for,
which the mediator refused if the failure says so -/
def FailingCalls (helpers : Helpers) {σ : Type} (h : σ → (q : Query) → Answer q × σ)
    (failure : TypedFailure) (text : String) (calls : List (Sigma Answer)) : Prop :=
  (failure.cls = .deliveryFailed ∧ ∃ request,
    helpers.parseAction text = .ok (.finish request.summary true) ∧
    calls = [⟨.deliver request, .error failure.reason⟩]) ∨
  (failure.cls ≠ .deliveryFailed ∧ ∃ action, ∃ ex : Executor, ∃ s, helpers.parseAction text = .ok action ∧
    calls = (ex.dispatch helpers.containsSecretShaped action).trace h s ∧
    (failure.cls = .mediationRefused → ex.RefusedBash failure.reason calls))

/-- after the last model call come only the calls that fail, and the loops' own -/
def EndsAtCall (helpers : Helpers) {σ : Type} (h : σ → (q : Query) → Answer q × σ)
    (failure : TypedFailure) (trace : List (Sigma Answer)) : Prop :=
  ∃ before request answer text costs calls after,
    trace = before ++ ⟨.stream request, answer⟩ :: (costs ++ (calls ++ after)) ∧
    responseOf ⟨.stream request, answer⟩ = some text ∧
    (∀ e ∈ costs ++ after, e.1.isLoop = true) ∧ FailingCalls helpers h failure text calls

/-! ## one attempt -/

/-- two states, `n` turns of an attempt apart -/
structure Spent (config : WorkerConfig) (n : Nat) (state state' : RunState) : Prop where
  turns : state'.turns = state.turns + n
  modelCalls : state'.modelCalls ≤ state.modelCalls + n * (config.budgets.maxProviderRetries + 1)

variable {κ : Type} {m : Monitor Answer κ} {J : κ → Prop} {R : κ → String → Prop}
  {D : Except String DeliveryOutcome → κ → Prop} {k : κ} {config : WorkerConfig} {seams : Seams}

def Delivered (J : κ → Prop) (D : Except String DeliveryOutcome → κ → Prop)
    (outcome : AttemptOutcome) (k : κ) : Prop :=
  match outcome with
  | .completed _ delivery => D (.ok delivery) k
  | .failed failure => failure.cls = .deliveryFailed ∧ D (.error failure.reason) k ∨
      failure.cls ≠ .deliveryFailed ∧ J k

theorem delivered_failed {failure : TypedFailure} (hcls : failure.cls ≠ .deliveryFailed)
    (hJ : J k) : Delivered J D (.failed failure) k := .inr ⟨hcls, hJ⟩

theorem delivered_refused {reason : String} (hD : D (.error reason) k) :
    Delivered J D (.failed ⟨.deliveryFailed, reason⟩) k := .inl ⟨rfl, hD⟩

theorem delivered_completed {delivery : DeliveryOutcome} (hD : D (.ok delivery) k)
    (summary : String) : Delivered J D (.completed summary delivery) k := hD

/-- what the seams of a run must keep to -/
structure SeamRules (m : Monitor Answer κ) (J : κ → Prop) (R : κ → String → Prop)
    (D : Except String DeliveryOutcome → κ → Prop) (seams : Seams) : Prop where
  spawn : ∀ parent tool question evidence k, J k →
    (seams.spawn parent tool question evidence).Keeps m (fun r k' => (∃ v, r = some v) ∧ J k') k
  deliver : ∀ request text k, J k → R k text →
    seams.helpers.parseAction text = .ok (.finish request.summary true) →
    (seams.deliver request).Keeps m D k

/-- an attempt that started in `state` -/
structure Going (config : WorkerConfig) (state : RunState) (a : Attempt) : Prop where
  spent : Spent config a.turnsThisAttempt state a.state
  turns_le : a.turnsThisAttempt ≤ config.budgets.maxTurnsPerAttempt

/-- the end of an attempt that started in `state` -/
structure Ended (config : WorkerConfig) (J : κ → Prop)
    (D : Except String DeliveryOutcome → κ → Prop) (state : RunState) (e : AttemptEnd) (k : κ) :
    Prop where
  spent : ∃ n ≤ config.budgets.maxTurnsPerAttempt, Spent config n state e.state
  delivered : Delivered J D e.outcome k

def Takes (config : WorkerConfig) (J : κ → Prop) (D : Except String DeliveryOutcome → κ → Prop)
    (state : RunState) (turns : Nat) (r : Attempt ⊕ Option AttemptEnd) (k : κ) : Prop :=
  r.elim (fun a => J k ∧ Going config state a ∧ a.turnsThisAttempt = turns)
    (fun e => ∃ e', e = some e' ∧ Ended config J D state e' k)

def Query.isSettling : Query → Bool
  | .now | .progressFingerprint _ _ => true
  | _ => false

theorem Query.isQuiet_of_isSettling {q : Query} (h : q.isSettling = true) : q.isQuiet = true := by
  cases q <;> first | rfl | cases h

theorem Query.isLoop_of_isSettling {q : Query} (h : q.isSettling = true) : q.isLoop = true := by
  cases q <;> first | rfl | cases h

/-- what the guards after a call make of the attempt -/
inductive Guarded (a : Attempt) : Attempt ⊕ Option AttemptEnd → Prop
  | goesOn (churn : ChurnWindow) (noProgress : NoProgressGuard) : Guarded a (.inl { a with churn, noProgress })
  | stops (churn : ChurnWindow) (noProgress : NoProgressGuard) {cls : FailureClass} (reason : String)
      (hcls : cls = .toolLoopChurn ∨ cls = .noProgress) :
      Guarded a (.inr (some ({ a with churn, noProgress }.stopAtCall cls reason)))

theorem afterCall_guarded (action : WorkerAction) (a : Attempt) :
    (afterCall config action a).Within (·.isSettling) (Guarded a) := by
  unfold afterCall
  split
  · exact .goesOn a.churn a.noProgress
  next receipt _ =>
    generalize (if config.guardrails.churnEnabled then
      a.churn.observe (toolCallShape action receipt) else (false, a.churn)) = observed
    obtain ⟨churned, churn⟩ := observed
    dsimp only
    split
    · exact .stops churn a.noProgress _ (.inl rfl)
    split
    · refine ⟨rfl, fun fingerprint => ?_⟩
      dsimp only
      split
      · exact .stops churn _ _ (.inr rfl)
      · exact .goesOn churn _
    · exact .goesOn churn a.noProgress

section attempt
variable {state : RunState} {a : Attempt}

theorem Spent.reached {n : Nat} {state' state'' : RunState} (h : Spent config n state state')
    (hr : Reached 0 state' state'') : Spent config n state state'' :=
  ⟨hr.turns.trans h.turns, by rw [hr.modelCalls]; exact h.modelCalls⟩

theorem Going.stop (h : Going config state a) {outcome : AttemptOutcome}
    (hd : Delivered J D outcome k) (turns : Nat) :
    Takes config J D state turns (.inr (some (a.stop outcome))) k :=
  ⟨_, rfl, ⟨_, h.turns_le, h.spent⟩, hd⟩

theorem Going.stopAtCall (h : Going config state a) {cls : FailureClass}
    (hcls : cls ≠ .deliveryFailed) (hJ : J k) (reason : String) (turns : Nat) :
    Takes config J D state turns (.inr (some (a.stopAtCall cls reason))) k :=
  ⟨_, rfl, ⟨_, h.turns_le, h.spent⟩, delivered_failed hcls hJ⟩

theorem Going.say (h : Going config state a) (role : MessageRole) (content : String) :
    Going config state (a.say role content) := ⟨h.spent, h.turns_le⟩

theorem Going.dispatched (h : Going config state a) (action : WorkerAction) (executor : Executor)
    {state' : RunState} (hr : Reached 0 a.state state') :
    Going config state (a.dispatched action executor state') := ⟨h.spent.reached hr, h.turns_le⟩

variable (rules : Rules m J R)
include rules

theorem afterCall_takes (hJ : J k) (h : Going config state a) (action : WorkerAction) :
    (afterCall config action a).Keeps m (Takes config J D state a.turnsThisAttempt) k := by
  have hguarded : ∀ churn noProgress, Going config state { a with churn, noProgress } :=
    fun _ _ => ⟨h.spent, h.turns_le⟩
  apply (rules.within ((afterCall_guarded action a).weaken fun _ => Query.isQuiet_of_isSettling) hJ).mono
  rintro r k' ⟨hr, rfl⟩
  cases hr with
  | goesOn => exact ⟨hJ, hguarded _ _, rfl⟩
  | stops _ _ reason hcls => exact (hguarded _ _).stopAtCall (by rintro rfl; simp at hcls) hJ ..

theorem settleCall_takes (hJ : J k) (h : Going config state a) (turn : ToolTurn)
    {next : Attempt → Turn} (hnext : ∀ a', Going config state a' →
      a'.turnsThisAttempt = a.turnsThisAttempt →
      (next a').Keeps m (Takes config J D state a.turnsThisAttempt) k) :
    (settleCall turn a next).Keeps m (Takes config J D state a.turnsThisAttempt) k := by
  refine rules.call hJ rfl fun t => ?_
  have hsaid : Going config state
      { a.say .user turn.observation with lastProgress := t, formatErrors := 0 } :=
    ⟨h.spent, h.turns_le⟩
  split
  · exact hsaid.stopAtCall (by decide) hJ ..
  · exact hnext _ hsaid rfl

theorem builtInTool_takes (hJ : J k) (h : Going config state a) (action : WorkerAction)
    (dispatchStarted : Nat) : (builtInTool seams config a action dispatchStarted).Keeps m
      (Takes config J D state a.turnsThisAttempt) k := by
  rw [builtInTool, keeps_bind]
  apply ((a.executor.dispatch_within seams.helpers.containsSecretShaped action).keeps fun q hq =>
    rules.quiet k q hJ (Query.isQuiet_of_isTool hq)).mono
  rintro ⟨turn, executor⟩ k' ⟨-, rfl⟩
  have hcharged : ∀ pollBudget, Going config state
      { a.dispatched action executor a.state with pollBudget } := fun _ => ⟨h.spent, h.turns_le⟩
  dsimp only
  split
  · refine rules.call hJ rfl fun t => ?_
    split
    · exact (hcharged _).stopAtCall (by decide) hJ ..
    · exact settleCall_takes rules hJ (hcharged _) turn fun a' ha' hturns =>
        hturns ▸ afterCall_takes rules hJ ha' action
  · exact settleCall_takes rules hJ (hcharged a.pollBudget) turn fun a' ha' hturns =>
      hturns ▸ afterCall_takes rules hJ ha' action

variable (hseams : SeamRules m J R D seams)
include hseams

theorem dispatchSubagent_keeps (hJ : J k) (executor : Executor) (state : RunState)
    (toolId : String) (question : Option String) :
    (dispatchSubagent seams config executor state toolId question).Keeps m
      (fun r k' => (∃ v, r = some v ∧ Reached 0 state v.2.2) ∧ J k') k := by
  unfold dispatchSubagent
  split
  · exact ⟨⟨_, rfl, rfl, rfl, rfl⟩, hJ⟩
  split
  · exact ⟨⟨_, rfl, rfl, rfl, rfl⟩, hJ⟩
  split
  · exact ⟨⟨_, rfl, rfl, rfl, rfl⟩, hJ⟩
  split
  · exact ⟨⟨_, rfl, rfl, rfl, rfl⟩, hJ⟩
  refine rules.call hJ rfl fun t => ?_
  rw [keeps_bind]
  apply (hseams.spawn _ _ _ _ k hJ).mono
  rintro r k' ⟨⟨v, rfl⟩, hJ'⟩
  cases v with
  | error | ok => exact ⟨⟨_, rfl, rfl, rfl, rfl⟩, hJ'⟩

theorem declaredTool_takes (hJ : J k) (h : Going config state a) (toolId : String)
    (question : Option String) : (declaredTool seams config a toolId question).Keeps m
      (Takes config J D state a.turnsThisAttempt) k := by
  unfold declaredTool
  split
  · rw [keeps_bind]
    apply (dispatchSubagent_keeps rules hseams hJ a.executor a.state toolId question).mono
    rintro r k' ⟨⟨⟨observation, executor, state'⟩, rfl, hr⟩, hJ'⟩
    exact settleCall_takes rules hJ' (h.dispatched _ _ hr) _ fun a' ha' hturns => ⟨hJ', ha', hturns⟩
  · rw [keeps_bind]
    apply ((a.executor.dispatch_within seams.helpers.containsSecretShaped _).keeps fun q hq =>
      rules.quiet k q hJ (Query.isQuiet_of_isTool hq)).mono
    rintro ⟨turn, executor⟩ k' ⟨-, rfl⟩
    exact settleCall_takes rules hJ (h.dispatched _ _ ⟨rfl, rfl, rfl⟩) _ fun a' ha' hturns =>
      ⟨hJ, ha', hturns⟩

theorem act_takes (hJ : J k) (h : Going config state a) (task : WorkerTask) {text : String}
    (htext : R k text) (dispatchStarted : Nat) :
    (act seams task config a text dispatchStarted).Keeps m
      (Takes config J D state a.turnsThisAttempt) k := by
  unfold act
  split
  next reason _ =>
    dsimp only
    split
    · exact Going.stop ⟨h.spent, h.turns_le⟩
        (delivered_failed (by simp) hJ) _
    · exact ⟨hJ, ⟨h.spent, h.turns_le⟩, rfl⟩
  next name _ => exact ⟨hJ, ⟨h.spent, h.turns_le⟩, rfl⟩
  next summary success hparse =>
    split
    · exact h.stop (delivered_failed (by decide) hJ) _
    next hsuccess =>
      simp only [Bool.not_eq_true', Bool.not_eq_false] at hsuccess
      subst hsuccess
      rw [keeps_bind]
      apply (hseams.deliver _ text k hJ htext hparse).mono
      rintro (reason | delivery) k' hD
      · exact h.stop (delivered_refused hD) _
      · exact h.stop (delivered_completed hD summary) _
  next toolId question _ => exact declaredTool_takes rules hseams hJ h toolId question
  next action _ _ _ => exact builtInTool_takes rules hJ h action dispatchStarted

theorem turn_takes (hJ : J k) (h : Going config state a) (task : WorkerTask) :
    (turn seams task config a).Keeps m (fun r k' =>
      Takes config J D state (a.turnsThisAttempt + 1) r k' ∧
        (r.isLeft = true → a.turnsThisAttempt < config.budgets.maxTurnsPerAttempt)) k := by
  refine rules.call hJ rfl fun dispatchStarted => rules.call hJ rfl fun t1 => ?_
  split
  · exact ⟨h.stop (delivered_failed (by decide) hJ) _, nofun⟩
  refine rules.call hJ rfl fun t2 => ?_
  split
  · exact ⟨h.stop (delivered_failed (by decide) hJ) _, nofun⟩
  split
  · exact ⟨h.stop (delivered_failed (by decide) hJ) _, nofun⟩
  next hturns =>
    rw [keeps_bind]
    apply (callModel_keeps rules config _ _ hJ).mono
    rintro r k' ⟨⟨res, state'⟩, rfl, hJ', ⟨n, hn, hreached⟩, hres⟩
    -- one more turn, and at most one more round of retries
    have hgoing : Going config state { a with
        turnsThisAttempt := a.turnsThisAttempt + 1, state := state' } := by
      refine ⟨⟨?_, ?_⟩, Nat.lt_of_not_le hturns⟩
      · have := hreached.turns
        have := h.spent.turns
        simp only at *
        omega
      · have h1 := hreached.modelCalls
        have h2 := h.spent.modelCalls
        simp only at h1 ⊢
        rw [Nat.add_mul]
        omega
    cases res with
    | error failure =>
      have hcls : failure.cls = .providerError := hres
      exact ⟨hgoing.stop (delivered_failed (by rw [hcls]; decide) hJ') _, nofun⟩
    | ok text =>
      apply (act_takes rules hseams hJ' (hgoing.say .assistant text) task hres dispatchStarted).mono
      intro _ _ hr
      exact ⟨hr, fun _ => Nat.lt_of_not_le hturns⟩

theorem runAttempt_ends (hJ : J k) (task : WorkerTask) (executor : Executor) (state : RunState)
    (replanNote replanSummary : Option String) :
    (runAttempt seams task config executor state replanNote replanSummary).Keeps m
      (fun r k' => ∃ e, r = some e ∧ Ended config J D state e k') k := by
  refine rules.call hJ rfl fun lastProgress => ?_
  rw [keeps_bind]
  have hloop : ∀ a, Going config state a →
      (Calls.loop (turn seams task config) (config.budgets.maxTurnsPerAttempt + 1) a).Keeps m
        (fun r k' => ∃ v, r = some v ∧ ∃ e, v = some e ∧ Ended config J D state e k') k := by
    intro a ha
    apply keeps_loop_some (I := fun a k => J k ∧ Going config state a)
      (μ := fun a => config.budgets.maxTurnsPerAttempt - a.turnsThisAttempt)
    · rintro a k ⟨hJ, h⟩
      apply (turn_takes rules hseams hJ h task).mono
      rintro (a' | e) k' ⟨hr, hlt⟩
      · obtain ⟨hJ', hgoing, hturns⟩ := hr
        have := hlt rfl
        exact ⟨⟨hJ', hgoing⟩, by omega⟩
      · exact hr
    · exact ⟨hJ, ha⟩
    · exact Nat.lt_succ_of_le (Nat.sub_le _ _)
  have hbegin : Going config state
      (.begin seams.helpers task config executor state replanNote replanSummary lastProgress) :=
    ⟨⟨rfl, Nat.le_add_right _ _⟩, Nat.zero_le _⟩
  apply (hloop _ hbegin).mono
  rintro r k' ⟨v, rfl, e, rfl, he⟩
  exact ⟨e, rfl, he⟩

end attempt

/-! ## a run -/

/-- after an attempt, whose ending is the last one -/
structure Attempted (config : WorkerConfig) (r : RunLoop) : Prop where
  attempts_le : r.attempts ≤ max 1 config.budgets.maxAttempts
  replans : r.replans + 1 = r.attempts
  replans_le : r.replans ≤ config.budgets.maxReplans
  turns_le : r.state.turns ≤ r.attempts * config.budgets.maxTurnsPerAttempt
  modelCalls_le : r.state.modelCalls ≤ r.state.turns * (config.budgets.maxProviderRetries + 1)
  endings_length : r.endings.length = r.attempts
  endings_replannable : ∀ failure, .failed failure ∈ r.endings.dropLast →
    failure.cls.replanFatal = false

/-- before an attempt: every attempt so far has led to a re-plan -/
structure Replanned (config : WorkerConfig) (r : RunLoop) : Prop where
  attempts_lt : r.attempts < max 1 config.budgets.maxAttempts
  replans : r.replans = r.attempts
  replans_le : r.replans ≤ config.budgets.maxReplans
  turns_le : r.state.turns ≤ r.attempts * config.budgets.maxTurnsPerAttempt
  modelCalls_le : r.state.modelCalls ≤ r.state.turns * (config.budgets.maxProviderRetries + 1)
  endings_length : r.endings.length = r.attempts
  endings_replannable : ∀ failure, .failed failure ∈ r.endings → failure.cls.replanFatal = false

def RunDelivered (J : κ → Prop) (D : Except String DeliveryOutcome → κ → Prop)
    (outcome : AttemptOutcome) (k : κ) : Prop :=
  match outcome with
  | .completed _ delivery => D (.ok delivery) k
  | .failed _ => J k ∨ ∃ reason, D (.error reason) k

/-- the end of a run, and what is known of its delivery -/
structure RunEnded (config : WorkerConfig) (J : κ → Prop)
    (D : Except String DeliveryOutcome → κ → Prop) (task : WorkerTask) (e : RunEnd) (k : κ) :
    Prop where
  within : WithinBudgets config (e.toRun task)
  delivered : RunDelivered J D e.outcome k

section run
variable {task : WorkerTask} {r : RunLoop}

theorem Delivered.run {outcome : AttemptOutcome} (h : Delivered J D outcome k) :
    RunDelivered J D outcome k := by
  cases outcome with
  | completed => exact h
  | failed =>
    obtain ⟨-, hD⟩ | ⟨-, hJ⟩ := h
    · exact .inr ⟨_, hD⟩
    · exact .inl hJ

theorem Attempted.ends (h : Attempted config r) {outcome : AttemptOutcome}
    (hd : RunDelivered J D outcome k) : RunEnded config J D task { outcome, loop := r } k :=
  ⟨⟨h.attempts_le, .inl h.replans, h.replans_le, h.turns_le, h.modelCalls_le, h.endings_length,
    h.endings_replannable⟩, hd⟩

theorem Replanned.attempted (h : Replanned config r) {e : AttemptEnd}
    (he : ∃ n ≤ config.budgets.maxTurnsPerAttempt, Spent config n r.state e.state) :
    Attempted config { r with attempts := r.attempts + 1, executor := e.executor, state := e.state
                              endings := r.endings ++ [e.outcome] } := by
  obtain ⟨n, hn, hspent⟩ := he
  refine ⟨h.attempts_lt, congrArg (· + 1) h.replans, h.replans_le, ?_, ?_, ?_, ?_⟩
  · have h1 := hspent.turns
    have h2 := h.turns_le
    simp only
    rw [Nat.add_mul]
    omega
  · have h1 := hspent.modelCalls
    have h2 := h.modelCalls_le
    simp only
    rw [hspent.turns, Nat.add_mul]
    omega
  · simp [h.endings_length]
  · simp only [dropLast_concat]
    exact h.endings_replannable

variable (rules : Rules m J R)
include rules

theorem afterAttempt_keeps (helpers : Helpers) (h : Attempted config r) {outcome : AttemptOutcome}
    (hlast : r.endings.getLast? = some outcome) (hd : Delivered J D outcome k) :
    (afterAttempt helpers config r outcome).Keeps m (fun x k' => x.elim
      (fun r' => J k' ∧ Replanned config r' ∧ r'.attempts = r.attempts)
      (fun e => ∃ e', e = some e' ∧ RunEnded config J D task e' k')) k := by
  cases outcome with
  | completed => exact ⟨_, rfl, h.ends hd.run⟩
  | failed =>
    unfold afterAttempt
    dsimp only
    split
    · exact ⟨_, rfl, h.ends hd.run⟩
    next hfatal =>
      -- not fatal, so no delivery has been tried
      have hJ : J k := by
        obtain ⟨hcls, -⟩ | ⟨-, hJ⟩ := hd
        · rw [hcls] at hfatal
          exact absurd rfl hfatal
        · exact hJ
      split
      · exact ⟨_, rfl, h.ends (.inl hJ)⟩
      split
      · exact ⟨_, rfl, h.ends (.inl hJ)⟩
      next hattempts hreplans =>
        refine rules.call hJ rfl fun t => ?_
        have hreplan : r.replans + 1 ≤ config.budgets.maxReplans := by omega
        split
        · exact ⟨_, rfl, ⟨h.attempts_le, .inr ⟨h.replans, rfl⟩, hreplan, h.turns_le,
            h.modelCalls_le, h.endings_length, h.endings_replannable⟩, .inl hJ⟩
        · have hmore : r.attempts < max 1 config.budgets.maxAttempts :=
            lt_max_of_lt_right (Nat.lt_of_not_le hattempts)
          refine ⟨hJ, ⟨hmore, h.replans, hreplan, h.turns_le, h.modelCalls_le, h.endings_length,
            fun f hf => ?_⟩, rfl⟩
          -- the endings are those before the last one, and the last one
          rw [← dropLast_append_getLast? _ hlast] at hf
          simp only [mem_append, mem_singleton, AttemptOutcome.failed.injEq] at hf
          obtain hf | rfl := hf
          · exact h.endings_replannable f hf
          · exact Bool.not_eq_true _ ▸ hfatal

variable (hseams : SeamRules m J R D seams)
include hseams

theorem attemptRound_keeps (hJ : J k) (h : Replanned config r) :
    (attemptRound seams task config r).Keeps m (fun x k' => x.elim
      (fun r' => J k' ∧ Replanned config r' ∧ r'.attempts = r.attempts + 1)
      (fun e => ∃ e', e = some e' ∧ RunEnded config J D task e' k')) k := by
  rw [attemptRound, keeps_bind]
  apply (runAttempt_ends rules hseams hJ task r.executor r.state r.replanNote r.replanSummary).mono
  rintro x k' ⟨e, rfl, he⟩
  exact afterAttempt_keeps rules seams.helpers (h.attempted he.spent) (by simp) he.delivered

theorem runWorkerWith_keeps (hJ : J k) (worktree : String) (bash : Mediator) :
    (runWorkerWith seams task worktree bash config).Keeps m (fun x k' => ∃ result,
      x = some result ∧ match result with
        | .error _ => J k'
        | .ok run => ∃ e, run = RunEnd.toRun task e ∧ RunEnded config J D task e k') k := by
  refine rules.call hJ rfl fun root => ?_
  cases root with
  | error => exact ⟨_, rfl, hJ⟩
  | ok root =>
    refine rules.call hJ rfl fun started => ?_
    rw [keeps_bind]
    have hloop : ∀ r, Replanned config r →
        (Calls.loop (attemptRound seams task config) (max 1 config.budgets.maxAttempts) r).Keeps m
          (fun x k' => ∃ v, x = some v ∧ ∃ e, v = some e ∧ RunEnded config J D task e k') k := by
      intro r hr
      apply keeps_loop_some (I := fun r k => J k ∧ Replanned config r)
        (μ := fun r => max 1 config.budgets.maxAttempts - 1 - r.attempts)
      · rintro r k ⟨hJ, h⟩
        apply (attemptRound_keeps rules hseams hJ h).mono
        rintro (r' | e) k' hx
        · obtain ⟨hJ', hr', hattempts⟩ := hx
          have := hr'.attempts_lt
          exact ⟨⟨hJ', hr'⟩, by omega⟩
        · exact hx
      · exact ⟨hJ, hr⟩
      · omega
    have hbegin : Replanned config (.begin task config root bash started) :=
      ⟨by simp [RunLoop.begin], rfl, Nat.zero_le _, Nat.zero_le _, Nat.zero_le _, rfl, nofun⟩
    apply (hloop _ hbegin).mono
    rintro x k' ⟨v, rfl, e, rfl, he⟩
    exact ⟨_, rfl, e, rfl, he⟩

end run

/-! ## the two levels of runs -/

theorem childSeams_rules (helpers : Helpers) :
    SeamRules m J R (fun _ => J) (childSeams helpers) where
  spawn := fun _ _ _ _ _ hJ => ⟨⟨_, rfl⟩, hJ⟩
  deliver := fun _ _ _ hJ _ _ => hJ

section seams
variable (rules : Rules m J R) (helpers : Helpers)
include rules

theorem runSubsession_keeps (hJ : J k) (parent : SubsessionParent) (tool : ToolDefinition)
    (question : Option String) (routed : RoleRoutingEvidence) :
    (runSubsession (runWorkerWith (childSeams helpers)) parent tool question routed).Keeps m
      (fun x k' => (∃ v, x = some v) ∧ J k') k := by
  unfold runSubsession
  split
  · exact ⟨⟨_, rfl⟩, hJ⟩
  · rw [keeps_bind]
    apply (runWorkerWith_keeps rules (childSeams_rules helpers) hJ _ _).mono
    rintro x k' ⟨result, rfl, hresult⟩
    match result with
    | .error (.worktreeRoot reason) => exact ⟨⟨_, rfl⟩, hresult⟩
    | .ok run =>
      obtain ⟨e, rfl, he⟩ := hresult
      refine ⟨⟨_, rfl⟩, ?_⟩
      have hd := he.delivered
      cases ho : e.outcome with
      | completed =>
        rw [ho] at hd
        exact hd
      | failed =>
        rw [ho] at hd
        obtain hJ' | ⟨-, hJ'⟩ := hd <;> exact hJ'

theorem workerSeams_rules (hdeliver : ∀ request text k, J k → R k text →
      helpers.parseAction text = .ok (.finish request.summary true) →
      m.permits k (.deliver request) ∧ ∀ answer, D answer (m.next k (.deliver request) answer)) :
    SeamRules m J R D (workerSeams helpers) where
  spawn := fun parent tool question evidence _ hJ =>
    runSubsession_keeps rules helpers hJ parent tool question evidence
  deliver := by
    intro request text k hJ hR hparse
    obtain ⟨hpermits, hD⟩ := hdeliver request text k hJ hR hparse
    exact ⟨hpermits, fun answer _ => hD answer⟩

end seams

/-! ## the delivery seam -/

/-- what an observer of the delivery seam remembers -/
structure Seen where
  response : Option String
  delivered : Option (Except String DeliveryOutcome)

def Seen.next (k : Seen) : (q : Query) → Answer q → Seen
  | .stream request, a => { k with response := (responseOf ⟨.stream request, a⟩).or k.response }
  | .deliver _, answer => { k with delivered := some answer }
  | _, _ => k

/-- a delivery follows a response that finishes the task, and nothing follows a delivery -/
def deliverySeam (helpers : Helpers) : Monitor Answer Seen :=
  { permits := fun k q => k.delivered = none ∧ ∀ request, q = .deliver request →
      ∃ text, k.response = some text ∧
        helpers.parseAction text = .ok (.finish request.summary true)
    expects := fun _ _ _ => True
    next := Seen.next }

theorem deliverySeam_rules (helpers : Helpers) : Rules (deliverySeam helpers)
    (fun k => k.delivered = none) (fun k text => k.response = some text) where
  quiet := by
    intro k q hk hq
    constructor
    · refine ⟨hk, ?_⟩
      rintro request rfl
      cases hq
    · intro a
      cases q <;> first | rfl | cases hq
  stream := fun k request hk => ⟨hk, nofun⟩
  answer := by
    intro k request a hk _
    refine ⟨hk, ?_⟩
    rintro events text usage rfl hc
    show (responseOf ⟨.stream request, .ok events⟩).or k.response = some text
    rw [responseOf, hc]
    rfl

theorem deliverySeam_expected (helpers : Helpers) (trace : List (Sigma Answer)) :
    (deliverySeam helpers).Expected ⟨none, none⟩ trace :=
  Monitor.expected_of_forall (fun _ _ _ _ => trivial) (fun _ _ => trivial) _

section trace
variable {helpers : Helpers} {trace : List (Sigma Answer)} {k : Seen}

theorem after_response (helpers : Helpers) (trace : List (Sigma Answer)) (k : Seen) :
    ((deliverySeam helpers).after k trace).response = (lastResponse trace).or k.response := by
  induction trace using reverseRecOn with
  | nil => rfl
  | append_singleton _ e ih =>
    rw [Monitor.after_concat, lastResponse, filterMap_append]
    obtain ⟨q, a⟩ := e
    cases q with
    | stream request =>
      show (responseOf ⟨.stream request, a⟩).or _ = _
      rw [ih, filterMap_cons]
      cases hr : responseOf ⟨.stream request, a⟩ with
      | none => simp [lastResponse]
      | some => simp
    | _ => simpa [lastResponse, responseOf, deliverySeam, Seen.next] using ih

theorem permitted_deliver (hp : (deliverySeam helpers).Permitted k trace) {before after}
    {request : DeliveryRequest} {answer : Answer (.deliver request)}
    (ht : trace = before ++ ⟨.deliver request, answer⟩ :: after) :
    after = [] ∧ ∃ text, (lastResponse before).or k.response = some text ∧
      helpers.parseAction text = .ok (.finish request.summary true) := by
  subst ht
  rw [Monitor.permitted_append] at hp
  obtain ⟨-, ⟨-, hfinish⟩, hafter⟩ := hp
  obtain ⟨text, htext, hparse⟩ := hfinish request rfl
  refine ⟨?_, text, by rw [← after_response helpers, htext], hparse⟩
  cases after with
  | nil => rfl
  | cons => exact nomatch hafter.1.1

theorem delivered_mem {answer : Except String DeliveryOutcome} (hk : k.delivered = none)
    (hd : ((deliverySeam helpers).after k trace).delivered = some answer) :
    ∃ request, ⟨.deliver request, answer⟩ ∈ trace := by
  induction trace using reverseRecOn with
  | nil =>
    rw [Monitor.after_nil, hk] at hd
    cases hd
  | append_singleton _ e ih =>
    rw [Monitor.after_concat] at hd
    obtain ⟨q, a⟩ := e
    cases q with
    | deliver request =>
      obtain rfl : a = answer := Option.some.inj hd
      exact ⟨request, mem_append_right _ mem_cons_self⟩
    | _ =>
      obtain ⟨request, hmem⟩ := ih hd
      exact ⟨request, mem_append_left _ hmem⟩

end trace

/-! ## the end of a turn -/

theorem EndsAtCall.append {helpers : Helpers} {σ : Type} {h : σ → (q : Query) → Answer q × σ}
    {failure : TypedFailure} {trace : List (Sigma Answer)} (hend : EndsAtCall helpers h failure trace)
    (earlier : List (Sigma Answer)) : EndsAtCall helpers h failure (earlier ++ trace) := by
  obtain ⟨before, request, answer, text, costs, calls, after, rfl, hend⟩ := hend
  exact ⟨earlier ++ before, request, answer, text, costs, calls, after, by simp, hend⟩

/-- how a turn can fail after a call that gave `turn` -/
def Closes (turn : ToolTurn) (r : Attempt ⊕ Option AttemptEnd) : Prop :=
  ∀ e failure, r = .inr (some e) → e.outcome = .failed failure → failure.cls ≠ .deliveryFailed ∧
    (failure.cls = .mediationRefused → turn.mediationFailure = some failure.reason)

theorem closes_inl (turn : ToolTurn) (a : Attempt) : Closes turn (.inl a) := by
  intro e failure hend
  cases hend

theorem closes_stopAtCall {turn : ToolTurn} {cls : FailureClass} {reason : String} (a : Attempt)
    (hcls : cls ≠ .deliveryFailed)
    (hrefused : cls = .mediationRefused → turn.mediationFailure = some reason) :
    Closes turn (.inr (some (a.stopAtCall cls reason))) := by
  intro e failure hend hfailure
  cases hend
  cases hfailure
  exact ⟨hcls, hrefused⟩

theorem afterCall_within (action : WorkerAction) (turn : ToolTurn) (a : Attempt) :
    (afterCall config action a).Within (·.isLoop) (Closes turn) := by
  apply ((afterCall_guarded action a).weaken fun _ => Query.isLoop_of_isSettling).mono
  intro r hr
  cases hr with
  | goesOn => exact closes_inl turn _
  | stops _ _ _ hcls =>
    exact closes_stopAtCall _ (by rintro rfl; simp at hcls) (by rintro rfl; simp at hcls)

theorem settleCall_within (turn : ToolTurn) (a : Attempt) {next : Attempt → Turn}
    (hnext : ∀ a, (next a).Within (·.isLoop) (Closes turn)) :
    (settleCall turn a next).Within (·.isLoop) (Closes turn) := by
  refine ⟨rfl, fun t => ?_⟩
  split
  next reason hreason => exact closes_stopAtCall _ (by decide) fun _ => hreason
  · exact hnext _

namespace Executor
variable {σ : Type} {h : σ → (q : Query) → Answer q × σ} {s : σ} (ex : Executor)

def Refuses (h : σ → (q : Query) → Answer q × σ) (s : σ) (x : Calls Answer (ToolTurn × Executor)) : Prop :=
  ∀ reason, (x.run h s).1.1.mediationFailure = some reason → ex.RefusedBash reason (x.trace h s)

theorem refuses_of_within {P : Query → Prop} {x : Calls Answer (ToolTurn × Executor)}
    (hx : x.Within P (·.1.mediationFailure = none)) : ex.Refuses h s x := by
  intro reason hreason
  rw [(hx.trace h s).2] at hreason
  cases hreason

theorem bashTurn_refused {run : Except MediationError MediatedRun} {reason : String}
    (hreason : (ex.bashTurn run).1.mediationFailure = some reason) :
    ∃ error, run = .error error ∧ reason = mediationReason error := by
  cases run with
  | ok => cases hreason
  | error error => exact ⟨error, rfl, (Option.some.inj hreason).symm⟩

theorem runBash_refuses {script : String} {f : ToolTurn × Executor → ToolTurn × Executor}
    (hf : ∀ r, (f r).1.mediationFailure = r.1.mediationFailure) :
    ex.Refuses h s (ex.runBash script >>= fun run => .ret (f (ex.bashTurn run))) := by
  intro reason hreason
  rw [run_bind] at hreason
  obtain ⟨error, hrun, hreason⟩ := ex.bashTurn_refused ((hf _).symm.trans hreason)
  rw [trace_bind]
  unfold runBash at hrun ⊢
  unfold RefusedBash
  cases hbash : ex.bash with
  | readOnlyStub => rfl
  | given | subsession =>
    rw [hbash] at hrun
    have hanswer : (h s (.runBash _ script)).1 = .error error := hrun
    exact ⟨script, error, hreason, .inl (by simp only [Calls.trace, hanswer]; rfl)⟩

theorem declaredCommand_refuses (toolId : String) (argv : List String) :
    ex.Refuses h s (ex.declaredCommand toolId argv) := by
  unfold declaredCommand
  dsimp only
  split
  · intro reason hreason
    rw [run_bind] at hreason
    rw [trace_bind]
    unfold runBashWithin at hreason ⊢
    unfold RefusedBash
    cases hbash : ex.bash with
    | readOnlyStub => rfl
    | given | subsession =>
      rw [hbash] at hreason
      simp only [Calls.run] at hreason
      simp only [Calls.run, Calls.trace]
      cases hanswer : (h s (.runBashWithin _ _ (quoteArgv argv))).1 with
      | none =>
        rw [hanswer] at hreason
        cases hreason
      | some run =>
        rw [hanswer] at hreason
        obtain ⟨error, rfl, hreason'⟩ := ex.bashTurn_refused hreason
        exact ⟨_, error, hreason', .inr ⟨_, rfl⟩⟩
  · exact ex.runBash_refuses fun _ => rfl

theorem readFile_calm (path : String) :
    (ex.readFile path).Within (fun _ => True) (·.1.mediationFailure = none) := by
  refine ⟨trivial, fun resolved => ?_⟩
  cases resolved with
  | error => exact rfl
  | ok =>
    refine ⟨trivial, fun metadata => ?_⟩
    cases metadata with
    | none => exact rfl
    | some =>
      dsimp only
      split
      · exact rfl
      split
      · exact rfl
      refine ⟨trivial, fun content => ?_⟩
      cases content <;> exact rfl

theorem searchIn_calm (base pattern : String) :
    (ex.searchIn base pattern).Within (fun _ => True) (·.1.mediationFailure = none) := by
  refine ⟨trivial, fun dir => ?_⟩
  cases dir
  · exact rfl
  · exact ⟨trivial, fun _ => rfl⟩

theorem writeFile_calm (path content : String) :
    (ex.writeFile path content).Within (fun _ => True) (·.1.mediationFailure = none) := by
  unfold writeFile
  split
  · exact rfl
  refine ⟨trivial, fun resolved => ?_⟩
  cases resolved with
  | error => exact rfl
  | ok =>
    refine ⟨trivial, fun parentOk => ?_⟩
    cases parentOk
    · exact rfl
    refine ⟨trivial, fun written => ?_⟩
    cases written <;> exact rfl

theorem think_calm (secretShaped : String → Bool) (t : Thought) :
    (ex.think secretShaped t).1.mediationFailure = none := by
  unfold think
  grind [thinkRefusal]

theorem dispatch_refuses {secretShaped : String → Bool} (action : WorkerAction) :
    ex.Refuses h s (ex.dispatch secretShaped action) := by
  have hret : ∀ r : ToolTurn × Executor, r.1.mediationFailure = none → ex.Refuses h s (.ret r) :=
    fun r hr => ex.refuses_of_within (P := fun _ => True) hr
  unfold dispatch
  split
  next refused hrefused =>
    obtain ⟨tool, reason, rfl⟩ := admitInternal_refusal hrefused
    exact hret _ rfl
  split
  · exact ex.refuses_of_within (ex.readFile_calm _)
  next path =>
    unfold search
    split
    · exact ex.refuses_of_within (ex.searchIn_calm ..)
    · refine ex.refuses_of_within (P := fun _ => True) ⟨trivial, fun resolved => ?_⟩
      cases resolved with
      | error => exact rfl
      | ok => exact ex.searchIn_calm ..
  · exact ex.refuses_of_within (ex.writeFile_calm ..)
  · exact ex.runBash_refuses (f := id) fun _ => rfl
  · exact hret _ (ex.think_calm ..)
  · unfold dispatchDeclared
    split
    · exact hret _ rfl
    split
    · exact hret _ rfl
    · exact ex.declaredCommand_refuses _ _
    · exact hret _ rfl
  · exact hret _ rfl

end Executor

section turns
variable {helpers : Helpers} {task : WorkerTask} {σ : Type} {h : σ → (q : Query) → Answer q × σ} {s : σ}
  {failure : TypedFailure} {text : String}

/-- if the rest `x` of a turn fails for good, it does so in its failing calls -/
def Fails (helpers : Helpers) (h : σ → (q : Query) → Answer q × σ) (failure : TypedFailure) (text : String)
    (x : Turn) (s : σ) : Prop :=
  ∀ e, (x.run h s).1 = .inr (some e) → e.outcome = .failed failure → failure.cls.replanFatal = true →
    ∃ calls after, x.trace h s = calls ++ after ∧ (∀ e ∈ after, e.1.isLoop = true) ∧
      FailingCalls helpers h failure text calls

theorem fails_inl (a : Attempt) : Fails helpers h failure text (.ret (.inl a)) s := by
  intro e hend
  cases hend

theorem fails_ret {e : AttemptEnd} {cls : FailureClass} {reason : String} (hcls : cls.replanFatal = false)
    (he : e.outcome = .failed ⟨cls, reason⟩) : Fails helpers h failure text (.ret (.inr (some e))) s := by
  intro _ hend hfailure hfatal
  cases hend
  rw [he] at hfailure
  cases hfailure
  rw [hcls] at hfatal
  cases hfatal

theorem fails_dispatch {action : WorkerAction} (hparse : helpers.parseAction text = .ok action)
    (ex : Executor) {tail : ToolTurn × Executor → Turn}
    (htail : ∀ r, (tail r).Within (·.isLoop) (Closes r.1)) :
    Fails helpers h failure text (ex.dispatch helpers.containsSecretShaped action >>= tail) s := by
  intro e hend hfailure _
  rw [run_bind] at hend
  obtain ⟨hidle, hcloses⟩ := (htail _).trace h
    (((ex.dispatch helpers.containsSecretShaped action).run h s).2)
  obtain ⟨hcls, hrefused⟩ := hcloses e failure hend hfailure
  exact ⟨_, _, trace_bind .., hidle, .inr ⟨hcls, action, ex, s, hparse, rfl,
    fun h => ex.dispatch_refuses action _ (hrefused h)⟩⟩

theorem declaredTool_fails {a : Attempt} {toolId : String} {question : Option String}
    (hparse : helpers.parseAction text = .ok (.declaredTool toolId question)) :
    Fails helpers h failure text (declaredTool (workerSeams helpers) config a toolId question) s := by
  unfold declaredTool
  split
  · -- a sub-session ends no attempt
    intro e hend
    rw [run_bind] at hend
    cases hsub : ((dispatchSubagent (workerSeams helpers) config a.executor a.state toolId question).run h s).1
      with
    | none | some =>
      rw [hsub] at hend
      cases hend
  · exact fails_dispatch hparse _ fun r => settleCall_within r.1 _ fun a => closes_inl r.1 a

theorem builtInTool_fails {a : Attempt} {action : WorkerAction} {dispatchStarted : Nat}
    (hparse : helpers.parseAction text = .ok action) :
    Fails helpers h failure text (builtInTool (workerSeams helpers) config a action dispatchStarted) s := by
  refine fails_dispatch hparse _ fun r => ?_
  have hsettle : ∀ a, (settleCall r.1 a (afterCall config action)).Within (·.isLoop) (Closes r.1) := fun a =>
    settleCall_within r.1 a (afterCall_within action r.1)
  dsimp only
  split
  · refine ⟨rfl, fun t => ?_⟩
    dsimp only
    split
    · exact closes_stopAtCall _ (by decide) fun hcls => absurd hcls (by decide)
    · exact hsettle _
  · exact hsettle _

theorem act_fails {a : Attempt} {dispatchStarted : Nat} :
    Fails helpers h failure text (act (workerSeams helpers) task config a text dispatchStarted) s := by
  unfold act
  split
  next reason _ =>
    dsimp only
    split
    · exact fails_ret rfl rfl
    · exact fails_inl _
  next => exact fails_inl _
  next summary success hparse =>
    split
    · exact fails_ret rfl rfl
    next hsuccess =>
      simp only [Bool.not_eq_true', Bool.not_eq_false] at hsuccess
      subst hsuccess
      intro e hend hfailure _
      simp only [workerSeams, run_bind, Calls.run] at hend
      simp only [workerSeams, trace_bind, Calls.run, Calls.trace]
      generalize hrequest : (⟨task.id, summary, a.executor.untrustedWrites, some a.state.worktreeRoot,
        config.worktreeBranch⟩ : DeliveryRequest) = request at hend ⊢
      cases hanswer : (h s (.deliver request)).1 with
      | ok =>
        rw [hanswer] at hend
        cases hend
        cases hfailure
      | error reason =>
        rw [hanswer] at hend
        cases hend
        injection hfailure with hfailure
        subst hfailure
        exact ⟨_, [], rfl, fun _ he => absurd he not_mem_nil, .inl ⟨rfl, request, hrequest ▸ hparse, rfl⟩⟩
  next hparse => exact declaredTool_fails hparse
  next hparse => exact builtInTool_fails hparse

theorem callModelStep_text {request : ModelRequest} {st : Nat × RunState} {state : RunState}
    (hend : ((callModelStep config request st).run h s).1 = .inr (.ok text, state)) :
    ∃ answer costs, (callModelStep config request st).trace h s = ⟨.stream request, answer⟩ :: costs ∧
      responseOf ⟨.stream request, answer⟩ = some text ∧ ∀ e ∈ costs, e.1.isLoop = true := by
  have hcosts : ∀ usage completed state s, ∀ e ∈
      (recordCallCost config request usage completed state).trace h s, e.1.isLoop = true := by
    intro usage completed state s e he
    unfold recordCallCost at he
    split at he
    · cases he
    · obtain rfl | he := mem_cons.mp he
      · rfl
      · cases he
  unfold callModelStep at hend ⊢
  rw [Calls.run] at hend
  rw [Calls.trace]
  refine ⟨(h s (.stream request)).1, _, rfl, ?_⟩
  cases ha : (h s (.stream request)).1 with
  | error e =>
    rw [ha] at hend
    cases e with
    | requestFailed =>
      dsimp only at hend
      rw [run_bind] at hend
      split at hend <;> cases hend
    | invalidEvent | capabilityUnavailable =>
      dsimp only at hend
      rw [run_bind] at hend
      cases hend
  | ok events =>
    rw [ha] at hend
    dsimp only at hend ⊢
    cases hc : collectEvents events with
    | error =>
      rw [hc] at hend
      dsimp only at hend
      rw [run_bind] at hend
      cases hend
    | ok r =>
      rw [hc] at hend
      dsimp only at hend ⊢
      rw [run_bind] at hend
      cases hend
      rw [trace_bind]
      refine ⟨by rw [responseOf, hc], fun e he => ?_⟩
      exact hcosts _ _ _ _ e (by simpa [Calls.trace] using he)

theorem turn_fatal {a : Attempt} {e : AttemptEnd}
    (hend : ((turn (workerSeams helpers) task config a).run h s).1 = .inr (some e))
    (hfailure : e.outcome = .failed failure) (hfatal : failure.cls.replanFatal = true) :
    EndsAtCall helpers h failure ((turn (workerSeams helpers) task config a).trace h s) := by
  have hother : ∀ f : TypedFailure, e.outcome = .failed f → f.cls.replanFatal = false → False := by
    intro f he hcls
    rw [he] at hfailure
    cases hfailure
    rw [hcls] at hfatal
    cases hfatal
  unfold turn at hend ⊢
  simp only [Calls.run] at hend
  simp only [Calls.trace]
  split at hend
  · cases hend
    exact (hother _ rfl rfl).elim
  next htime =>
  simp only [Calls.run] at hend
  rw [if_neg htime]
  simp only [Calls.trace]
  split at hend
  · cases hend
    exact (hother _ rfl rfl).elim
  next hstall =>
  rw [if_neg hstall]
  split at hend
  · cases hend
    exact (hother _ rfl rfl).elim
  next hturns =>
  rw [if_neg hturns]
  rw [run_bind] at hend
  rw [trace_bind]
  generalize (h (h (h s .now).2 .now).2 .now).2 = s' at hend ⊢
  set state : RunState := { a.state with turns := a.state.turns + 1 }
  have hresponds := (callModel_keeps (deliverySeam_rules helpers) config a.messages state
    (k := ⟨none, none⟩) rfl).run_expected (h := h) (s := s') (deliverySeam_expected helpers _)
  obtain ⟨⟨res, state'⟩, hcall, -, -, hres⟩ := hresponds
  rw [hcall] at hend ⊢
  cases res with
  | error failure' =>
    cases hend
    have hcls : failure'.cls = .providerError := hres
    exact (hother failure' rfl (by rw [hcls]; rfl)).elim
  | ok text =>
    obtain ⟨st, s1, before, hstep, htrace⟩ := loop_last h hcall
    obtain ⟨answer, costs, hlast, hresponse, hcosts⟩ := callModelStep_text hstep
    obtain ⟨calls, after, hact, hafter, hcalls⟩ := act_fails e hend hfailure hfatal
    have hmodel : (callModel config a.messages state).trace h s' =
        before ++ ⟨.stream (buildRequest config a.messages), answer⟩ :: costs := htrace.trans (by rw [hlast])
    rw [hmodel]
    have hends : EndsAtCall helpers h failure
        ((before ++ ⟨.stream (buildRequest config a.messages), answer⟩ :: costs) ++ (calls ++ after)) :=
      ⟨before, _, answer, text, costs, calls, after, by rw [append_assoc, cons_append], hresponse,
        fun e he => (mem_append.mp he).elim (hcosts e) (hafter e), hcalls⟩
    rw [← hact] at hends
    exact hends.append [_, _, _]

theorem runAttempt_fatal {executor : Executor} {state : RunState} {replanNote replanSummary : Option String}
    {e : AttemptEnd}
    (hend : ((runAttempt (workerSeams helpers) task config executor state replanNote replanSummary).run h
      s).1 = some e)
    (hfailure : e.outcome = .failed failure) (hfatal : failure.cls.replanFatal = true) :
    EndsAtCall helpers h failure ((runAttempt (workerSeams helpers) task config executor state replanNote
      replanSummary).trace h s) := by
  unfold runAttempt at hend ⊢
  simp only [Calls.run, run_bind] at hend
  simp only [Calls.trace, trace_bind, append_nil]
  obtain ⟨a, s', before, hlast, htrace⟩ := loop_last h (Option.join_eq_some_iff.mp hend)
  rw [htrace]
  exact ((turn_fatal hlast hfailure hfatal).append before).append [_]

end turns

/-! ## the run of a worker -/

section fatal
variable {task : WorkerTask} {r : RunLoop} {σ : Type} {h : σ → (q : Query) → Answer q × σ} {s : σ}
  {e : RunEnd} {failure : TypedFailure}

theorem afterAttempt_fatal {helpers : Helpers} {outcome : AttemptOutcome}
    (hend : ((afterAttempt helpers config r outcome).run h s).1 = .inr (some e))
    (hfailure : e.outcome = .failed failure) (hfatal : failure.cls.replanFatal = true) :
    outcome = .failed failure ∧ (afterAttempt helpers config r outcome).trace h s = [] := by
  cases outcome with
  | completed =>
    cases hend
    cases hfailure
  | failed =>
    unfold afterAttempt at hend ⊢
    dsimp only at hend ⊢
    split at hend
    next hf =>
      cases hend
      cases hfailure
      rw [if_pos hf]
      exact ⟨rfl, rfl⟩
    -- every other end of the run names a failure that is not fatal
    split at hend
    · cases hend
      cases hfailure
      cases hfatal
    split at hend
    · cases hend
      cases hfailure
      cases hfatal
    rw [Calls.run] at hend
    split at hend
    · cases hend
      cases hfailure
      cases hfatal
    · cases hend

theorem attemptRound_fatal {helpers : Helpers}
    (hend : ((attemptRound (workerSeams helpers) task config r).run h s).1 = .inr (some e))
    (hfailure : e.outcome = .failed failure) (hfatal : failure.cls.replanFatal = true) :
    EndsAtCall helpers h failure ((attemptRound (workerSeams helpers) task config r).trace h s) := by
  rw [attemptRound, run_bind] at hend
  rw [attemptRound, trace_bind]
  cases ha : ((runAttempt (workerSeams helpers) task config r.executor r.state r.replanNote
      r.replanSummary).run h s).1 with
  | none =>
    rw [ha] at hend
    cases hend
  | some a =>
    rw [ha] at hend
    obtain ⟨houtcome, htrace⟩ := afterAttempt_fatal hend hfailure hfatal
    rw [htrace, append_nil]
    exact runAttempt_fatal ha houtcome hfatal

theorem runWorker_fatal {helpers : Helpers} {worktree : String} {run : WorkerRun}
    (hrun : ((runWorker helpers task worktree config).run h s).1 = some (.ok run))
    (hfailure : run.failure = some failure) (hfatal : failure.cls.replanFatal = true) :
    EndsAtCall helpers h failure ((runWorker helpers task worktree config).trace h s) := by
  unfold runWorker runWorkerWith at hrun ⊢
  rw [Calls.run] at hrun
  rw [Calls.trace]
  cases hroot : (h s (.canonicalRoot worktree)).1 with
  | error =>
    rw [hroot] at hrun
    cases hrun
  | ok =>
    rw [hroot] at hrun
    simp only [Calls.run, run_bind] at hrun
    simp only [Calls.trace, trace_bind, append_nil]
    obtain ⟨e, he, hok⟩ := Option.map_eq_some_iff.mp hrun
    cases hok
    obtain ⟨s', t', before, hlast, htrace⟩ := loop_last h (Option.join_eq_some_iff.mp he)
    have houtcome : e.outcome = .failed failure := by
      revert hfailure
      show e.outcome.failure? = some failure → _
      cases e.outcome with
      | completed => exact fun h => absurd h (Option.some_ne_none _).symm
      | failed => exact fun hf => congrArg _ (Option.some.inj hf)
    rw [htrace]
    exact ((attemptRound_fatal hlast houtcome hfatal).append before).append [_, _]

end fatal

theorem runWorker_error_iff (helpers : Helpers) (task : WorkerTask) (worktree : String)
    (config : WorkerConfig) {σ : Type} (h : σ → (q : Query) → Answer q × σ) (s : σ) (reason : String) :
    ((runWorker helpers task worktree config).run h s).1 = some (.error (.worktreeRoot reason)) ↔
      (h s (.canonicalRoot worktree)).1 = .error reason := by
  unfold runWorker runWorkerWith
  rw [Calls.run]
  cases hroot : (h s (.canonicalRoot worktree)).1 with
  | error => simp [Calls.run]
  | ok =>
    refine iff_of_false (fun hrun => ?_) nofun
    simp only [Calls.run, run_bind] at hrun
    obtain ⟨e, -, he⟩ := Option.map_eq_some_iff.mp hrun
    cases he

section delivery
variable {helpers : Helpers} {trace : List (Sigma Answer)} {k : Seen}

theorem mem_delivered (hp : (deliverySeam helpers).Permitted k trace) {request : DeliveryRequest}
    {answer : Answer (.deliver request)} (hmem : ⟨.deliver request, answer⟩ ∈ trace) :
    ((deliverySeam helpers).after k trace).delivered = some answer := by
  obtain ⟨before, after, rfl⟩ := append_of_mem hmem
  obtain ⟨rfl, -⟩ := permitted_deliver hp rfl
  rw [Monitor.after_concat]
  rfl

theorem completed_iff_delivered {outcome : AttemptOutcome}
    (hp : (deliverySeam helpers).Permitted k trace) (hk : k.delivered = none)
    (hd : RunDelivered (fun k => k.delivered = none) (fun answer k => k.delivered = some answer)
      outcome ((deliverySeam helpers).after k trace)) :
    outcome.status = .completed ↔ ∃ request delivery,
      (⟨.deliver request, .ok delivery⟩ : Sigma Answer) ∈ trace := by
  cases outcome with
  | completed _ delivery =>
    obtain ⟨request, hmem⟩ := delivered_mem hk hd
    exact iff_of_true rfl ⟨request, delivery, hmem⟩
  | failed =>
    refine iff_of_false nofun ?_
    rintro ⟨request, delivery, hmem⟩
    have hok := mem_delivered hp hmem
    obtain hnone | ⟨reason, herror⟩ := hd
    · rw [hnone] at hok
      cases hok
    · rw [herror] at hok
      cases hok

end delivery

section seam
variable (helpers : Helpers)

theorem runWorker_keeps (task : WorkerTask) (worktree : String) (config : WorkerConfig) :
    (runWorker helpers task worktree config).Keeps (deliverySeam helpers)
      (fun x k' => ∃ result, x = some result ∧ match result with
        | .error _ => k'.delivered = none
        | .ok run => ∃ e, run = RunEnd.toRun task e ∧
          RunEnded config (fun k => k.delivered = none)
            (fun answer k => k.delivered = some answer) task e k') ⟨none, none⟩ := by
  have hseams := workerSeams_rules (deliverySeam_rules helpers) helpers
    (D := fun answer k => k.delivered = some answer) fun request text k hk htext hparse =>
      ⟨⟨hk, fun request' hr => by cases hr; exact ⟨text, htext, hparse⟩⟩, fun _ => rfl⟩
  exact runWorkerWith_keeps (deliverySeam_rules helpers) hseams rfl worktree .given

theorem runWorker_returns (task : WorkerTask) (worktree : String) (config : WorkerConfig) {σ : Type}
    (h : σ → (q : Query) → Answer q × σ) (s : σ) :
    ∃ result, ((runWorker helpers task worktree config).run h s).1 = some result := by
  have hkeeps := runWorker_keeps helpers task worktree config
  obtain ⟨result, hresult, -⟩ := hkeeps.run_expected (deliverySeam_expected helpers _)
  exact ⟨result, hresult⟩

end seam

/-- Every run returns, with an error exactly when the worktree cannot be resolved, and else within its
budgets.  It delivers at most once, after a response that finishes the task, and is completed exactly when
that delivery succeeded; no model or tool call follows a failure that a new plan cannot help. -/
theorem run_worker_bounded (helpers : Helpers) (task : WorkerTask) (worktree : String)
    (config : WorkerConfig) {σ : Type} (h : σ → (q : Query) → Answer q × σ) (s : σ) :
    ∃ result, ((runWorker helpers task worktree config).run h s).1 = some result ∧
      DeliversOnce helpers ((runWorker helpers task worktree config).trace h s) ∧
      (∀ reason, result = .error (.worktreeRoot reason) ↔
        (h s (.canonicalRoot worktree)).1 = .error reason) ∧
      ∀ run, result = .ok run →
        WithinBudgets config run ∧
        (max 1 config.budgets.maxAttempts * config.budgets.maxTurnsPerAttempt *
          (config.budgets.maxProviderRetries + 1) ≤ u32Max → run.turns ≤ u32Max ∧ run.modelCalls ≤ u32Max) ∧
        (run.status = .completed ↔ ∃ request delivery,
          (⟨.deliver request, .ok delivery⟩ : Sigma Answer) ∈
            (runWorker helpers task worktree config).trace h s) ∧
        ∀ failure, run.failure = some failure → failure.cls.replanFatal = true →
          EndsAtCall helpers h failure ((runWorker helpers task worktree config).trace h s) := by
  have hkeeps := runWorker_keeps helpers task worktree config
  have hexpected := deliverySeam_expected helpers ((runWorker helpers task worktree config).trace h s)
  obtain ⟨result, hresult, hpost⟩ := hkeeps.run_expected hexpected
  have hp := hkeeps.permitted hexpected
  refine ⟨result, hresult, ?_, fun reason => ?_, ?_⟩
  · intro _ _ _ _ ht
    have hd := permitted_deliver hp ht
    simpa using hd
  · rw [← runWorker_error_iff helpers task worktree config h s, hresult, Option.some.injEq]
  · rintro run rfl
    obtain ⟨e, rfl, he⟩ := hpost
    exact ⟨he.within, he.within.counters_fit, completed_iff_delivered hp rfl he.delivered,
      fun failure hf hfatal => runWorker_fatal hresult hf hfatal⟩

end Worker

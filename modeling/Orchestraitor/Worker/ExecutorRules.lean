import Orchestraitor.Worker.Bounds

/-!
# What a run makes of its executor

Between two responses the executor does not change: it changes where a response is acted on.
`Acts m seams config I P` says what must hold there for a property `I` of the executor, and of what a
monitor `m` knows, to hold at the end of a run (`runWorkerWith_acts`); `P` is what holds while a
response has come in and is not acted on yet.
-/

namespace Worker
open Base Base.Calls

variable {κ : Type} {m : Monitor Answer κ} {seams : Seams} {config : WorkerConfig}
  {I : κ → Executor → Prop} {P : κ → String → Executor → Prop} {k : κ}

/-- what a monitor must allow for `I` to last from one response to the next -/
structure Acts (m : Monitor Answer κ) (seams : Seams) (config : WorkerConfig)
    (I : κ → Executor → Prop) (P : κ → String → Executor → Prop) : Prop where
  loop : ∀ k q, q.isLoop = true → m.permits k q ∧ ∀ a, m.next k q a = k
  stream : ∀ k request, m.permits k (.stream request)
  silent : ∀ {k request a ex}, I k ex → m.expects k (.stream request) a →
    responseOf ⟨.stream request, a⟩ = none → I (m.next k (.stream request) a) ex
  response : ∀ {k request a ex text}, I k ex → m.expects k (.stream request) a →
    responseOf ⟨.stream request, a⟩ = some text → P (m.next k (.stream request) a) text ex
  malformed : ∀ {k text ex reason}, P k text ex →
    seams.helpers.parseAction text = .error (.malformed reason) → I k ex
  unknown : ∀ {k text ex name}, P k text ex →
    seams.helpers.parseAction text = .error (.unknownTool name) →
    I k (ex.recordRefusal name "unknown-tool").2
  gaveUp : ∀ {k text ex summary}, P k text ex →
    seams.helpers.parseAction text = .ok (.finish summary false) → I k ex
  finish : ∀ {k text ex summary}, P k text ex →
    seams.helpers.parseAction text = .ok (.finish summary true) →
    ∀ request, (seams.deliver request).Keeps m (fun _ k' => I k' ex) k
  dispatch : ∀ {k text ex action}, P k text ex → seams.helpers.parseAction text = .ok action →
    (∀ summary success, action ≠ .finish summary success) →
    (ex.dispatch seams.helpers.containsSecretShaped action).Keeps m (fun r k' => I k' r.2) k
  subagent : ∀ {k text ex toolId question}, P k text ex →
    seams.helpers.parseAction text = .ok (.declaredTool toolId question) → ∀ state,
    (dispatchSubagent seams config ex state toolId question).Keeps m
      (fun r k' => ∀ v, r = some v → I k' v.2.1) k

def Leaves (I : κ → Executor → Prop) (r : Attempt ⊕ Option AttemptEnd) (k : κ) : Prop :=
  r.elim (fun a => I k a.executor) (fun e => ∀ e', e = some e' → I k e'.executor)

theorem leaves_end {e : AttemptEnd} (h : I k e.executor) : Leaves I (.inr (some e)) k := by
  intro _ he
  cases he
  exact h

theorem leaves_none : Leaves I (.inr none) k := by
  intro _ he
  cases he

section acts
variable (acts : Acts m seams config I P)
include acts

theorem Acts.call {α : Type} {q : Query} {f : Answer q → Calls Answer α} {post : α → κ → Prop}
    (hq : q.isLoop = true) (h : ∀ a, (f a).Keeps m post k) : (Calls.call q f).Keeps m post k := by
  refine ⟨(acts.loop k q hq).1, fun a _ => ?_⟩
  rw [(acts.loop k q hq).2 a]
  exact h a

/-! ## a model call -/

theorem recordCallCost_acts {α : Type} {request : ModelRequest} {usage : Option TokenCount}
    {completed : Bool} {state : RunState} {f : RunState → Calls Answer α} {post : α → κ → Prop}
    (h : ∀ state', (f state').Keeps m post k) :
    (recordCallCost config request usage completed state >>= f).Keeps m post k := by
  unfold recordCallCost
  split
  · exact h _
  · exact acts.call rfl fun _ => h _

def Answers (I : κ → Executor → Prop) (P : κ → String → Executor → Prop) (ex : Executor)
    (r : Except TypedFailure String × RunState) (k : κ) : Prop :=
  match r.1 with
  | .ok text => P k text ex
  | .error _ => I k ex

variable {ex : Executor} {a : Attempt} {text : String}

theorem callModelStep_acts (h : I k ex) (request : ModelRequest) (s : Nat × RunState) :
    (callModelStep config request s).Keeps m
      (fun r k' => r.elim (fun _ => I k' ex) (Answers I P ex · k')) k := by
  refine ⟨acts.stream k request, fun a ha => ?_⟩
  match a with
  | .ok events =>
    dsimp only
    split
    next text usage hc =>
      have hr : responseOf ⟨.stream request, .ok events⟩ = some text := by rw [responseOf, hc]
      exact recordCallCost_acts acts fun _ => acts.response h ha hr
    next failure usage hc =>
      have hr : responseOf ⟨.stream request, .ok events⟩ = none := by rw [responseOf, hc]
      exact recordCallCost_acts acts fun _ => acts.silent h ha hr
  | .error .requestFailed =>
    apply recordCallCost_acts acts
    intro _
    split
    · exact acts.silent h ha rfl
    · exact acts.call rfl fun _ => acts.silent h ha rfl
  | .error .invalidEvent => exact recordCallCost_acts acts fun _ => acts.silent h ha rfl
  | .error .capabilityUnavailable => exact recordCallCost_acts acts fun _ => acts.silent h ha rfl

theorem callModel_acts (h : I k ex) (messages : List ModelMessage) (state : RunState) :
    (callModel config messages state).Keeps m
      (fun r k' => ∀ v, r = some v → Answers I P ex v k') k := by
  refine (keeps_loop (fun s k hI => callModelStep_acts acts hI _ s)
    (config.budgets.maxProviderRetries + 1) h).mono ?_
  intro _ _ hr _ hv
  subst hv
  exact hr

/-! ## an attempt -/

theorem afterCall_acts (h : I k a.executor) (action : WorkerAction) :
    (afterCall config action a).Keeps m (Leaves I) k := by
  apply ((afterCall_guarded action a).keeps fun q hq => acts.loop k q (Query.isLoop_of_isSettling hq)).mono
  rintro r k' ⟨hr, rfl⟩
  cases hr with
  | goesOn => exact h
  | stops => exact leaves_end h

theorem settleCall_acts (h : I k a.executor) (turn : ToolTurn) {rest : Attempt → Turn}
    (hrest : ∀ a', I k a'.executor → (rest a').Keeps m (Leaves I) k) :
    (settleCall turn a rest).Keeps m (Leaves I) k := by
  refine acts.call rfl fun t => ?_
  split
  · exact leaves_end h
  · exact hrest _ h

theorem builtInTool_acts {action : WorkerAction} (h : P k text a.executor)
    (hparse : seams.helpers.parseAction text = .ok action)
    (hfinish : ∀ summary success, action ≠ .finish summary success) (dispatchStarted : Nat) :
    (builtInTool seams config a action dispatchStarted).Keeps m (Leaves I) k := by
  rw [builtInTool, keeps_bind]
  apply (acts.dispatch h hparse hfinish).mono
  rintro ⟨turn, executor⟩ k' hI
  have hsettle : ∀ a' : Attempt, I k' a'.executor →
      (settleCall turn a' (afterCall config action)).Keeps m (Leaves I) k' :=
    fun a' ha' => settleCall_acts acts ha' turn fun a'' ha'' => afterCall_acts acts ha'' action
  dsimp only
  split
  · refine acts.call rfl fun t => ?_
    split
    · exact leaves_end hI
    · exact hsettle _ hI
  · exact hsettle _ hI

theorem declaredTool_acts {toolId : String} {question : Option String} (h : P k text a.executor)
    (hparse : seams.helpers.parseAction text = .ok (.declaredTool toolId question)) :
    (declaredTool seams config a toolId question).Keeps m (Leaves I) k := by
  unfold declaredTool
  split
  · rw [keeps_bind]
    apply (acts.subagent h hparse a.state).mono
    intro r _ hr
    cases r with
    | none => exact leaves_none
    | some v => exact settleCall_acts acts (hr v rfl) _ fun a' ha' => ha'
  · rw [keeps_bind]
    apply (acts.dispatch h hparse nofun).mono
    intro _ _ hr
    exact settleCall_acts acts hr _ fun a' ha' => ha'

theorem act_acts (h : P k text a.executor) (task : WorkerTask) (dispatchStarted : Nat) :
    (act seams task config a text dispatchStarted).Keeps m (Leaves I) k := by
  unfold act
  split
  next reason hparse =>
    have hI := acts.malformed h hparse
    dsimp only
    split
    · exact leaves_end hI
    · exact hI
  next name hparse => exact acts.unknown h hparse
  next summary success hparse =>
    split
    next hsuccess =>
      rw [Bool.not_eq_true'] at hsuccess
      subst hsuccess
      exact leaves_end (acts.gaveUp h hparse)
    next hsuccess =>
      simp only [Bool.not_eq_true', Bool.not_eq_false] at hsuccess
      subst hsuccess
      rw [keeps_bind]
      apply (acts.finish h hparse _).mono
      intro r _ hI
      cases r <;> exact leaves_end hI
  next toolId question hparse => exact declaredTool_acts acts h hparse
  next action hfinish hdeclared hparse =>
    exact builtInTool_acts acts h hparse (fun summary success he => hfinish summary success he) _

theorem turn_acts (h : I k a.executor) (task : WorkerTask) :
    (turn seams task config a).Keeps m (Leaves I) k := by
  refine acts.call rfl fun dispatchStarted => acts.call rfl fun t1 => ?_
  split
  · exact leaves_end h
  refine acts.call rfl fun t2 => ?_
  split
  · exact leaves_end h
  split
  · exact leaves_end h
  rw [keeps_bind]
  apply (callModel_acts acts h _ _).mono
  intro r k' hr
  match r with
  | none => exact leaves_none
  | some (.error failure, state) => exact leaves_end (hr _ rfl)
  | some (.ok text, state) =>
    have hP : P k' text a.executor := hr _ rfl
    exact act_acts acts (a := { a with
      turnsThisAttempt := a.turnsThisAttempt + 1, state
      messages := a.messages ++ [{ role := .assistant, content := text }] }) hP task dispatchStarted

theorem runAttempt_acts (h : I k ex) (task : WorkerTask) (state : RunState)
    (replanNote replanSummary : Option String) :
    (runAttempt seams task config ex state replanNote replanSummary).Keeps m
      (fun r k' => ∀ e, r = some e → I k' e.executor) k := by
  refine acts.call rfl fun lastProgress => ?_
  rw [keeps_bind]
  refine (keeps_loop (fun a k hI => turn_acts acts hI task)
    (config.budgets.maxTurnsPerAttempt + 1) h).mono ?_
  intro r _ hr e he
  obtain rfl : r = some (some e) := Option.join_eq_some_iff.mp he
  exact hr e rfl

/-! ## a run -/

theorem afterAttempt_acts {r : RunLoop} (h : I k r.executor) (outcome : AttemptOutcome) :
    (afterAttempt seams.helpers config r outcome).Keeps m
      (fun res k' => res.elim (fun r' => I k' r'.executor)
        (fun e => ∀ e', e = some e' → I k' e'.loop.executor)) k := by
  have hend : ∀ outcome, ∀ e', some (RunEnd.mk outcome r) = some e' → I k e'.loop.executor := by
    intro _ _ he
    cases he
    exact h
  unfold afterAttempt
  split
  · exact hend _
  split
  · exact hend _
  split
  · exact hend _
  split
  · exact hend _
  refine acts.call rfl fun t => ?_
  split
  · intro _ he
    cases he
    exact h
  · exact h

theorem attemptRound_acts {r : RunLoop} (h : I k r.executor) (task : WorkerTask) :
    (attemptRound seams task config r).Keeps m (fun res k' => res.elim (fun r' => I k' r'.executor)
        (fun e => ∀ e', e = some e' → I k' e'.loop.executor)) k := by
  rw [attemptRound, keeps_bind]
  apply (runAttempt_acts acts h task r.state r.replanNote r.replanSummary).mono
  intro res k' hres
  cases res with
  | none =>
    intro _ he
    cases he
  | some e =>
    have hI : I k' e.executor := hres e rfl
    exact afterAttempt_acts acts hI e.outcome

/-- what a run says of its executor -/
structure RunOf (run : WorkerRun) (ex : Executor) : Prop where
  receipts : run.receipts = ex.receipts
  reasoningEvents : run.reasoningEvents = ex.reasoningRecords
  untrustedWrites : run.untrustedWrites = ex.untrustedWrites

theorem runWorkerWith_acts (task : WorkerTask) (worktree : String) (bash : Mediator)
    (h : ∀ root, I k (.new root bash
      { declared := config.tools
        allowedInternal := config.subsessionAllowedInternal
        subsessionDepth := config.subsessionDepth
        thinkEnabled := config.thinkEnabled
        recordPayloads := config.recordPayloads })) :
    (runWorkerWith seams task worktree bash config).Keeps m
      (fun r k' => ∀ run, r = some (.ok run) → ∃ ex, I k' ex ∧ RunOf run ex) k := by
  refine acts.call rfl fun root => ?_
  cases root with
  | error =>
    intro _ hrun
    cases hrun
  | ok root =>
    refine acts.call rfl fun started => ?_
    rw [keeps_bind]
    refine (keeps_loop
      (fun r k hI => attemptRound_acts acts hI task) (max 1 config.budgets.maxAttempts)
      (h root)).mono ?_
    intro r _ hr _ hrun
    obtain ⟨e, he, hok⟩ := Option.map_eq_some_iff.mp hrun
    obtain rfl : r = some (some e) := Option.join_eq_some_iff.mp he
    cases hok
    exact ⟨e.loop.executor, hr e rfl, rfl, rfl, rfl⟩

end acts

end Worker

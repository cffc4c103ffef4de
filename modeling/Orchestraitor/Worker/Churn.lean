import Orchestraitor.Worker.RunRules

/-!
# The churn guard over an attempt

`ChurnLaw` is what the guard is for: an attempt ends at the first call whose shape fills its window
too often.  The loop shows the window only the built-in calls, since a declared tool ends its turn
before the guards (`declaredTool`): the law holds for every attempt in which no response asks for a
declared tool (`churn_law`), and fails with one (`declared_calls_unobserved`).
-/

namespace Worker
open Base Base.Calls

def WorkerAction.isDeclared : WorkerAction → Bool
  | .declaredTool _ _ => true
  | _ => false

def declaredResponse (helpers : Helpers) (text : String) : Bool :=
  match helpers.parseAction text with
  | .ok action => action.isDeclared
  | .error _ => false

def asksDeclared (helpers : Helpers) : Sigma Answer → Bool
  | ⟨.stream _, .ok events⟩ => match collectEvents events with
    | .ok (text, _) => declaredResponse helpers text
    | .error _ => false
  | _ => false

/-! ## the law -/

def AttemptEnd.failedWith (e : AttemptEnd) (cls : FailureClass) : Prop :=
  ∃ reason, e.outcome = .failed ⟨cls, reason⟩

/-- the newest of the first `n` calls is one too many of its shape -/
def churnsAt (config : WorkerConfig) (calls : List DispatchedCall) (n : Nat) : Prop :=
  churns config.guardrails.toolRepeatCount config.guardrails.toolRepeatWindow
    ((calls.take n).map (·.shape))

/-- the attempt ends at the first call that churns, and for churn only there -/
structure ChurnLaw (config : WorkerConfig) (e : AttemptEnd) : Prop where
  first : ∀ n < e.calls.length, churnsAt config e.calls (n + 1) →
    n + 1 = e.calls.length ∧ e.atLastCall = true
  ends : churnsAt config e.calls e.calls.length → e.atLastCall = true →
    e.failedWith .toolLoopChurn ∨ e.failedWith .pollBudgetExhausted ∨ e.failedWith .mediationRefused
  only : e.failedWith .toolLoopChurn →
    churnsAt config e.calls e.calls.length ∧ e.atLastCall = true

/-- no call has churned -/
def NoChurn (config : WorkerConfig) (calls : List DispatchedCall) : Prop :=
  ∀ n < calls.length, ¬ churnsAt config calls (n + 1)

section law
variable {config : WorkerConfig} {calls : List DispatchedCall}

theorem NoChurn.not_churnsAt (h : NoChurn config calls) : ¬ churnsAt config calls calls.length := by
  cases hn : calls.length with
  | zero =>
    rintro ⟨newest, hmem, -⟩
    cases hmem
  | succ n => exact h n (by omega)

theorem churnsAt_concat {c : DispatchedCall} {n : Nat} (hn : n ≤ calls.length) :
    churnsAt config (calls ++ [c]) n ↔ churnsAt config calls n := by
  rw [churnsAt, churnsAt, List.take_append_of_le_length hn]

theorem noChurn_concat {c : DispatchedCall} : NoChurn config (calls ++ [c]) ↔
    NoChurn config calls ∧ ¬ churnsAt config (calls ++ [c]) (calls.length + 1) := by
  unfold NoChurn
  rw [List.length_append, List.length_singleton, Nat.forall_lt_succ_right]
  exact and_congr_left fun _ => forall₂_congr fun n hn => by rw [churnsAt_concat (by omega)]

theorem churnLaw_of_noChurn {e : AttemptEnd} (h : NoChurn config e.calls)
    (hcls : ¬ e.failedWith .toolLoopChurn) : ChurnLaw config e :=
  { first := fun n hn hc => absurd hc (h n hn)
    ends := fun hc _ => absurd hc h.not_churnsAt
    only := fun hf => absurd hf hcls }

theorem churnLaw_of_last {e : AttemptEnd} {c : DispatchedCall} (h : NoChurn config calls)
    (hcalls : e.calls = calls ++ [c]) (hlast : e.atLastCall = true)
    (hcls : e.failedWith .pollBudgetExhausted ∨ e.failedWith .mediationRefused ∨
      e.failedWith .toolLoopChurn ∧ churnsAt config e.calls e.calls.length) :
    ChurnLaw config e := by
  refine ⟨fun n hn hc => ⟨?_, hlast⟩, fun _ _ => by tauto, ?_⟩
  · -- a call before the last one is one of `calls`
    by_contra hne
    rw [hcalls, List.length_append, List.length_singleton] at hn hne
    have hn' : n < calls.length := by omega
    rw [hcalls, churnsAt_concat (by omega)] at hc
    exact h n hn' hc
  · rintro ⟨reason, hr⟩
    obtain ⟨r, h'⟩ | ⟨r, h'⟩ | ⟨-, h'⟩ := hcls
    · rw [hr] at h'
      cases h'
    · rw [hr] at h'
      cases h'
    · exact ⟨h', hlast⟩

end law

/-! ## one turn -/

def undeclared (helpers : Helpers) : Monitor Answer Unit :=
  { permits := fun _ _ => True
    expects := fun _ q a => asksDeclared helpers ⟨q, a⟩ = false
    next := fun _ _ _ => () }

theorem undeclared_rules (helpers : Helpers) : Rules (undeclared helpers) (fun _ => True)
    (fun _ text => declaredResponse helpers text = false) where
  quiet := fun _ _ _ _ => ⟨trivial, fun _ => rfl⟩
  stream := fun _ _ _ => trivial
  answer := by
    rintro k request a - ha
    refine ⟨trivial, fun events text usage hevents hc => ?_⟩
    subst hevents
    simpa only [undeclared, asksDeclared, hc] using ha

/-- the window has seen every call of the attempt, and none has churned -/
structure Watching (config : WorkerConfig) (a : Attempt) : Prop where
  sees : a.churn.Sees config.guardrails (a.calls.map (·.shape))
  noChurn : NoChurn config a.calls

def Lawful (config : WorkerConfig) (turns : Nat) (r : Attempt ⊕ Option AttemptEnd) : Prop :=
  r.elim (fun a => Watching config a ∧ a.turnsThisAttempt = turns)
    (fun e => ∃ e', e = some e' ∧ ChurnLaw config e')

theorem Watching.fail {config : WorkerConfig} {a : Attempt} (h : Watching config a)
    {outcome : AttemptOutcome} (hcls : ∀ reason, outcome ≠ .failed ⟨.toolLoopChurn, reason⟩)
    (turns : Nat) : Lawful config turns (.inr (some (a.stop outcome))) :=
  ⟨_, rfl, churnLaw_of_noChurn h.noChurn fun ⟨reason, hr⟩ => hcls reason hr⟩

/-- a call has been dispatched and not yet been shown to the window -/
structure Unseen (config : WorkerConfig) (a : Attempt) (action : WorkerAction)
    (receipt : ToolReceipt) (before : List DispatchedCall) : Prop where
  sees : a.churn.Sees config.guardrails (before.map (·.shape))
  noChurn : NoChurn config before
  calls : a.calls = before ++ [⟨action, receipt⟩]
  last : a.executor.receipts.getLast? = some receipt

section turn
variable {helpers : Helpers} {config : WorkerConfig} {a : Attempt} {action : WorkerAction}
  {receipt : ToolReceipt} {before : List DispatchedCall}

theorem Watching.dispatched (h : Watching config a) (action : WorkerAction) {executor : Executor}
    (hnext : a.executor.Next executor) :
    ∃ receipt, Unseen config (a.dispatched action executor a.state) action receipt a.calls := by
  obtain ⟨receipt, hr⟩ := hnext.receipt
  have hlast : executor.receipts.getLast? = some receipt := by rw [hr, List.getLast?_concat]
  refine ⟨receipt, h.sees, h.noChurn, ?_, hlast⟩
  rw [Attempt.dispatched, hlast]
  rfl

theorem Unseen.stop (h : Unseen config a action receipt before) {cls : FailureClass}
    (hcls : cls = .pollBudgetExhausted ∨ cls = .mediationRefused) (reason : String) (turns : Nat) :
    Lawful config turns (.inr (some (a.stopAtCall cls reason))) := by
  refine ⟨_, rfl, churnLaw_of_last h.noChurn h.calls rfl ?_⟩
  obtain rfl | rfl := hcls
  · exact .inl ⟨reason, rfl⟩
  · exact .inr (.inl ⟨reason, rfl⟩)

theorem afterCall_keeps (hc : config.guardrails.churnEnabled = true)
    (h : Unseen config a action receipt before) :
    (afterCall config action a).Keeps (undeclared helpers)
      (fun r _ => Lawful config a.turnsThisAttempt r) () := by
  obtain ⟨hfired, hsees⟩ := ChurnWindow.observe_of_sees hc h.sees (toolCallShape action receipt)
  have hshapes : a.calls.map (·.shape) = before.map (·.shape) ++ [toolCallShape action receipt] := by
    rw [h.calls, List.map_append]
    rfl
  have hchurns : churnsAt config a.calls a.calls.length ↔
      (a.churn.observe (toolCallShape action receipt)).1 = true := by
    rw [churnsAt, List.take_length, hshapes, hfired]
  unfold afterCall
  simp only [h.last, hc, if_true]
  split
  · rename_i hch
    exact ⟨_, rfl, churnLaw_of_last h.noChurn h.calls rfl
      (.inr (.inr ⟨⟨_, rfl⟩, hchurns.mpr hch⟩))⟩
  · rename_i hch
    have hno : NoChurn config a.calls := by
      rw [h.calls, noChurn_concat]
      refine ⟨h.noChurn, ?_⟩
      have hlen : before.length + 1 = a.calls.length := by rw [h.calls]; simp
      rw [← h.calls, hlen, hchurns]
      exact hch
    have hwatch : ∀ g, Watching config
        { a with churn := (a.churn.observe (toolCallShape action receipt)).2, noProgress := g } :=
      fun g => ⟨by rw [hshapes]; exact hsees, hno⟩
    split
    · refine ⟨trivial, fun fingerprint _ => ?_⟩
      dsimp only
      split
      · exact ⟨_, rfl, churnLaw_of_noChurn hno fun ⟨_, hr⟩ => by cases hr⟩
      · exact ⟨hwatch _, rfl⟩
    · exact ⟨hwatch _, rfl⟩

theorem settleCall_keeps (hc : config.guardrails.churnEnabled = true)
    (h : Unseen config a action receipt before) (turn : ToolTurn) :
    (settleCall turn a (afterCall config action)).Keeps (undeclared helpers)
      (fun r _ => Lawful config a.turnsThisAttempt r) () := by
  refine ⟨trivial, fun t _ => ?_⟩
  have h' : Unseen config
      { a.say .user turn.observation with lastProgress := t, formatErrors := 0 } action receipt
      before := ⟨h.sees, h.noChurn, h.calls, h.last⟩
  split
  · exact h'.stop (.inr rfl) ..
  · exact afterCall_keeps hc h'

theorem builtInTool_keeps (hc : config.guardrails.churnEnabled = true) (h : Watching config a)
    (seams : Seams) (action : WorkerAction) (dispatchStarted : Nat) :
    (builtInTool seams config a action dispatchStarted).Keeps (undeclared helpers)
      (fun r _ => Lawful config a.turnsThisAttempt r) () := by
  rw [builtInTool, keeps_bind]
  apply ((a.executor.dispatch_within seams.helpers.containsSecretShaped action).keeps
    fun _ _ => ⟨trivial, fun _ => rfl⟩).mono
  rintro ⟨turn, executor⟩ _ ⟨hnext, -⟩
  obtain ⟨receipt, hu⟩ := h.dispatched action hnext
  have hcharged : ∀ pollBudget, Unseen config
      { a.dispatched action executor a.state with pollBudget } action receipt a.calls :=
    fun _ => ⟨hu.sees, hu.noChurn, hu.calls, hu.last⟩
  dsimp only
  split
  · refine ⟨trivial, fun t _ => ?_⟩
    dsimp only
    split
    · exact (hcharged _).stop (.inl rfl) ..
    · exact settleCall_keeps hc (hcharged _) turn
  · exact settleCall_keeps hc hu turn

theorem act_keeps (hc : config.guardrails.churnEnabled = true) (h : Watching config a)
    (seams : Seams) (task : WorkerTask) {text : String}
    (htext : declaredResponse seams.helpers text = false) (dispatchStarted : Nat) :
    (act seams task config a text dispatchStarted).Keeps (undeclared helpers)
      (fun r _ => Lawful config a.turnsThisAttempt r) () := by
  unfold act
  split
  next reason _ =>
    dsimp only
    split
    · exact Watching.fail
        ⟨h.sees, h.noChurn⟩ (by simp) _
    · exact ⟨⟨h.sees, h.noChurn⟩, rfl⟩
  next name _ => exact ⟨⟨h.sees, h.noChurn⟩, rfl⟩
  next summary success _ =>
    split
    · exact h.fail (by simp) _
    · rw [keeps_bind]
      apply (keeps_any (fun _ _ => trivial) _ _).mono
      rintro (reason | delivery) _ -
      · exact h.fail (by simp) _
      · exact h.fail (by simp) _
  next toolId question hp =>
    rw [declaredResponse, hp] at htext
    cases htext
  next action _ _ _ => exact builtInTool_keeps hc h seams action dispatchStarted

theorem turn_keeps (hc : config.guardrails.churnEnabled = true) (h : Watching config a)
    (seams : Seams) (task : WorkerTask) :
    (turn seams task config a).Keeps (undeclared seams.helpers)
      (fun r _ => Lawful config (a.turnsThisAttempt + 1) r ∧
        (r.isLeft = true → a.turnsThisAttempt < config.budgets.maxTurnsPerAttempt)) () := by
  refine ⟨trivial, fun dispatchStarted _ => ⟨trivial, fun t₁ _ => ?_⟩⟩
  dsimp only
  split
  · exact ⟨h.fail (by simp) _, nofun⟩
  refine ⟨trivial, fun t2 _ => ?_⟩
  dsimp only
  split
  · exact ⟨h.fail (by simp) _, nofun⟩
  split
  · exact ⟨h.fail (by simp) _, nofun⟩
  next hturns =>
    rw [keeps_bind]
    apply (callModel_keeps (undeclared_rules seams.helpers) config _ _ trivial).mono
    rintro r _ ⟨⟨res, state⟩, rfl, -, -, hres⟩
    cases res with
    | error =>
      refine ⟨Watching.fail (a := { a with state }) ⟨h.sees, h.noChurn⟩ ?_ _, nofun⟩
      rintro reason hr
      cases hr
      cases hres
    | ok text =>
      apply (act_keeps hc (a := Attempt.say { a with
        turnsThisAttempt := a.turnsThisAttempt + 1, state } .assistant text)
        ⟨h.sees, h.noChurn⟩ seams task hres dispatchStarted).mono
      intro r _ hr
      exact ⟨hr, fun _ => by omega⟩

end turn

/-! ## the attempt -/

theorem runAttempt_keeps {config : WorkerConfig} (hc : config.guardrails.churnEnabled = true)
    (seams : Seams) (task : WorkerTask) (executor : Executor) (state : RunState)
    (replanNote replanSummary : Option String) :
    (runAttempt seams task config executor state replanNote replanSummary).Keeps
      (undeclared seams.helpers) (fun r _ => ∃ e, r = some e ∧ ChurnLaw config e) () := by
  refine ⟨trivial, fun lastProgress _ => ?_⟩
  rw [keeps_bind]
  -- the turns that are left are the potential of the loop
  have hloop : ∀ a, Watching config a → a.turnsThisAttempt = 0 →
      (Calls.loop (turn seams task config) (config.budgets.maxTurnsPerAttempt + 1) a).Keeps
        (undeclared seams.helpers)
        (fun r _ => ∃ v, r = some v ∧ ∃ e, v = some e ∧ ChurnLaw config e) () := by
    intro a ha _
    apply keeps_loop_some
      (I := fun a _ => Watching config a ∧ a.turnsThisAttempt ≤ config.budgets.maxTurnsPerAttempt)
      (μ := fun a => config.budgets.maxTurnsPerAttempt - a.turnsThisAttempt)
    · rintro a k ⟨h, hle⟩
      apply (turn_keeps hc h seams task).mono
      rintro (a' | e) _ ⟨hr, hlt⟩
      · obtain ⟨hw, ht⟩ := hr
        have := hlt rfl
        exact ⟨⟨hw, by omega⟩, by omega⟩
      · exact hr
    · exact ⟨ha, by omega⟩
    · exact Nat.lt_succ_of_le (Nat.sub_le _ _)
  have hbegin : Watching config
      (.begin seams.helpers task config executor state replanNote replanSummary lastProgress) :=
    ⟨ChurnWindow.sees_new hc, fun n hn => absurd hn n.not_lt_zero⟩
  apply (hloop _ hbegin rfl).mono
  rintro r _ ⟨v, rfl, e, rfl, he⟩
  exact ⟨e, rfl, he⟩

/-- Every attempt ends by the law, if no response of it asks for a declared tool. -/
theorem churn_law (seams : Seams) (task : WorkerTask) (config : WorkerConfig) (executor : Executor)
    (state : RunState) (replanNote replanSummary : Option String)
    (hcount : 2 ≤ config.guardrails.toolRepeatCount)
    (hwindow : 1 ≤ config.guardrails.toolRepeatWindow)
    {σ : Type} (h : σ → (q : Query) → Answer q × σ) (s : σ)
    (hresponses : ∀ event ∈
      (runAttempt seams task config executor state replanNote replanSummary).trace h s,
      asksDeclared seams.helpers event = false) :
    ∃ e, ((runAttempt seams task config executor state replanNote replanSummary).run h s).1 =
      some e ∧ ChurnLaw config e :=
  (runAttempt_keeps (GuardrailsConfig.churnEnabled_iff.mpr ⟨hcount, hwindow⟩) seams task executor
    state replanNote replanSummary).run_expected
    (Monitor.expected_of_forall (fun _ _ _ he => he) hresponses ())

/-! ## two attempts -/

section sample

def sampleSeams (action : WorkerAction) : Seams := workerSeams
  { parseAction := fun _ => .ok action
    containsSecretShaped := fun _ => false
    systemPrompt := fun _ => ""
    taskPrompt := fun _ _ _ => ""
    forReplan := fun _ _ => none }

def sampleConfig : WorkerConfig :=
  { WorkerConfig.new "provider" "model"
      { WorkerBudgets.bootstrapDefaults with maxTurnsPerAttempt := 3 } with
    guardrails := { noProgressTurns := 0, toolRepeatCount := 2, toolRepeatWindow := 2
                    ciPollBudget := 0 }
    tools := [{ id := "lint", mechanism := .command ["lint"]
                budget := { maxTurns := 12, wallClockSecs := none, maxResultBytes := 8192
                            structuredSummary := false }
                effort := none, maxSummaryBytes := none, structuredSummary := none }] }

def sampleHost (_ : Unit) : (q : Query) → Answer q × Unit
  | .canonicalRoot worktree => (.ok worktree, ())
  | .now => (0, ())
  | .stream _ => (.ok [some .completed], ())
  | .recordCost _ => ((), ())
  | .sleep _ => ((), ())
  | .resolve _ path => (.ok path, ())
  | .metadata _ => (none, ())
  | .read _ => (.io, ())
  | .isDir _ => (false, ())
  | .searchFiles _ _ _ => ([], ())
  | .createParent _ => (true, ())
  | .write _ _ => (true, ())
  | .runBash _ _ => (.ok { exitCode := some 0, stdout := "", stderr := "" }, ())
  | .runBashWithin _ _ _ => (some (.ok { exitCode := some 0, stdout := "", stderr := "" }), ())
  | .progressFingerprint _ _ => (0, ())
  | .deliver _ => (.ok (.pending ""), ())

def sampleTask : WorkerTask := { id := "t1", slug := "t1", description := "" }

def sampleLoop : RunLoop := .begin sampleTask sampleConfig "/w" .given 0

def sampleAttempt (action : WorkerAction) : Calls Answer (Option AttemptEnd) :=
  runAttempt (sampleSeams action) sampleTask sampleConfig sampleLoop.executor sampleLoop.state none
    none

/-- a script that is run twice in a row ends the attempt -/
theorem churn_law_bash :
    (∃ e, ((sampleAttempt (.bash "ls")).run sampleHost ()).1 = some e ∧
      ChurnLaw sampleConfig e) ∧
    ((sampleAttempt (.bash "ls")).run sampleHost ()).1.map (·.outcome) =
      some (.failed ⟨.toolLoopChurn, "tool-loop-churn"⟩) := by
  refine ⟨churn_law (sampleSeams (.bash "ls")) sampleTask sampleConfig sampleLoop.executor
    sampleLoop.state none none (by decide) (by decide) sampleHost () ?_, by decide +kernel⟩
  rintro ⟨q, a⟩ -
  cases q with
  | stream =>
    cases a with
    | error => rfl
    | ok =>
      simp only [asksDeclared]
      split <;> rfl
  | _ => rfl

/-- Three runs of a declared tool in a row do not: the attempt goes on to its turn bound. -/
theorem declared_calls_unobserved :
    ∃ e, ((sampleAttempt (.declaredTool "lint" none)).run sampleHost ()).1 = some e ∧
      e.calls.length = 3 ∧ churnsAt sampleConfig e.calls 2 ∧
      e.outcome = .failed ⟨.turnBudgetExhausted, "turn-budget"⟩ ∧ ¬ ChurnLaw sampleConfig e := by
  have hsome : ((sampleAttempt (.declaredTool "lint" none)).run sampleHost ()).1.isSome = true := by
    decide +kernel
  have hcalls : ((sampleAttempt (.declaredTool "lint" none)).run sampleHost ()).1.map
      (fun e => (e.calls.length, e.outcome)) =
      some (3, .failed ⟨.turnBudgetExhausted, "turn-budget"⟩) := by decide +kernel
  have hchurns : ((sampleAttempt (.declaredTool "lint" none)).run sampleHost ()).1.map
      (fun e => decide (churns 2 2 ((e.calls.take 2).map (·.shape)))) = some true := by
    decide +kernel
  obtain ⟨e, he⟩ := Option.isSome_iff_exists.mp hsome
  rw [he] at hcalls hchurns
  simp only [Option.map_some, Option.some.injEq, Prod.mk.injEq, decide_eq_true_eq] at hcalls hchurns
  refine ⟨e, he, hcalls.1, hchurns, hcalls.2, fun law => ?_⟩
  have hlast := (law.first 1 (by omega) hchurns).1
  omega

end sample

end Worker

import Orchestraitor.Base.Timed
import Orchestraitor.Worker.Bounds
import Orchestraitor.Worker.Churn

/-!
# The poll budget over an attempt

An attempt is charged for its poll-shaped scripts from a timestamp at the top of the turn, before the
model call: `turn_charged` says what one turn adds to the budget, `attempt_charged` what a whole attempt
adds up to, the time of the scripts and the time that the model calls of the same turns took.
-/

namespace Worker
open Base Base.Calls

/-! ## the time of a turn -/

def Query.isModel : Query → Bool
  | .stream _ | .sleep _ | .recordCost _ => true
  | _ => false

def Query.isBash : Query → Bool
  | .runBash _ _ => true
  | _ => false

abbrev TimedTrace := List (Sigma (Timed Answer))

def firstResponse (turn : TimedTrace) : Option String :=
  turn.findSome? fun e => responseOf ⟨e.1, e.2.1⟩

def asksPoll (helpers : Helpers) (text : String) : Bool :=
  match helpers.parseAction text with
  | .ok action => isPollShaped action
  | .error _ => false

def polls (helpers : Helpers) (turn : TimedTrace) : Bool :=
  (firstResponse turn).any (asksPoll helpers)

def scriptTime (helpers : Helpers) (turn : TimedTrace) : Nat :=
  if polls helpers turn then timeOf Query.isBash turn else 0

def waitTime (helpers : Helpers) (turn : TimedTrace) : Nat :=
  if polls helpers turn then timeOf Query.isModel turn else 0

def charged (helpers : Helpers) (turn : TimedTrace) : Nat :=
  scriptTime helpers turn + waitTime helpers turn

theorem firstResponse_concat (k : TimedTrace) (e : Sigma (Timed Answer)) :
    firstResponse (k ++ [e]) = (firstResponse k).or (responseOf ⟨e.1, e.2.1⟩) := by
  unfold firstResponse
  simp

theorem charged_of_not_polls {helpers : Helpers} {k : TimedTrace} (h : polls helpers k = false) :
    charged helpers k = 0 := by
  rw [charged, scriptTime, waitTime, h]
  rfl

/-! ## the clock -/

def reading (start : Nat) (k : TimedTrace) : (q : Query) → Timed Answer q → Prop
  | .now, a => a.1 = start + elapsed k ∧ a.2 = 0
  | _, _ => True

variable {start : Nat} {k : TimedTrace} {helpers : Helpers} {seams : Seams} {config : WorkerConfig}

/-- all the time so far went to the model or to a script -/
structure Accounted (k : TimedTrace) : Prop where
  split : elapsed k = timeOf Query.isModel k + timeOf Query.isBash k

theorem accounted_nil : Accounted [] := ⟨rfl⟩

variable {q : Query} {a : Attempt} {text : String}

theorem Accounted.concat (h : Accounted k) {a : Timed Answer q}
    (hq : q.isModel = true ∨ q.isBash = true ∨ a.2 = 0) : Accounted (k ++ [⟨q, a⟩]) := by
  constructor
  rw [elapsed_concat, timeOf_concat, timeOf_concat, h.split]
  cases q <;> simp_all [Query.isModel, Query.isBash] <;> omega

theorem Accounted.model (h : Accounted k) (hq : q.isModel = true) (a : Timed Answer q) :
    Accounted (k ++ [⟨q, a⟩]) := h.concat (.inl hq)

/-! ## a model call -/

/-- before the response of the turn -/
structure Waiting (k : TimedTrace) : Prop where
  accounted : Accounted k
  noScript : timeOf Query.isBash k = 0
  noResponse : firstResponse k = none

theorem Waiting.concat (h : Waiting k) {a : Timed Answer q} (hq : q.isModel = true ∨ a.2 = 0)
    (hbash : q.isBash = false) (hr : responseOf ⟨q, a.1⟩ = none) : Waiting (k ++ [⟨q, a⟩]) := by
  refine ⟨h.accounted.concat (hq.imp id Or.inr), ?_, ?_⟩
  · rw [timeOf_concat, h.noScript]
    simp [hbash]
  · rw [firstResponse_concat, h.noResponse]
    simpa using hr

/-- after the response `text` -/
structure Responded (text : String) (k : TimedTrace) : Prop where
  accounted : Accounted k
  noScript : timeOf Query.isBash k = 0
  response : firstResponse k = some text

theorem Responded.concat (h : Responded text k) {a : Timed Answer q}
    (hq : q.isModel = true ∨ a.2 = 0) (hbash : q.isBash = false) :
    Responded text (k ++ [⟨q, a⟩]) := by
  refine ⟨h.accounted.concat (hq.imp id Or.inr), ?_, ?_⟩
  · rw [timeOf_concat, h.noScript]
    simp [hbash]
  · rw [firstResponse_concat, h.response]
    rfl

/-- what a model call leaves -/
def Called (r : Except TypedFailure String × RunState) (k : TimedTrace) : Prop :=
  match r.1 with
  | .ok text => Responded text k
  | .error failure => Waiting k ∧ failure.cls = .providerError

theorem recordCallCost_timed {α : Type} {request : ModelRequest} {usage : Option TokenCount}
    {completed : Bool} {state : RunState} {f : RunState → Calls Answer α} {J : TimedTrace → Prop}
    {post : α → TimedTrace → Prop} (hJ : J k)
    (hcost : ∀ k entry (a : Timed Answer (.recordCost entry)), J k → J (k ++ [⟨.recordCost entry, a⟩]))
    (h : ∀ state' k', J k' → (f state').timed.Keeps (recording (reading start)) post k') :
    (recordCallCost config request usage completed state >>= f).timed.Keeps
      (recording (reading start)) post k := by
  unfold recordCallCost
  split
  · exact h _ k hJ
  · exact ⟨trivial, fun a _ => h _ _ (hcost k _ a hJ)⟩

theorem callModelStep_timed (h : Waiting k) (request : ModelRequest) (s : Nat × RunState) :
    (callModelStep config request s).timed.Keeps (recording (reading start))
      (fun r k' => r.elim (fun _ => Waiting k') (Called · k')) k := by
  have hcost : ∀ k entry (a : Timed Answer (.recordCost entry)), Waiting k →
      Waiting (k ++ [⟨.recordCost entry, a⟩]) :=
    fun k entry a hk => hk.concat (.inl rfl) rfl rfl
  refine ⟨trivial, fun a _ => ?_⟩
  obtain ⟨answer, d⟩ := a
  match answer with
  | .ok events =>
    dsimp only
    split
    next text usage hc =>
      have hr : responseOf ⟨.stream request, .ok events⟩ = some text := by rw [responseOf, hc]
      have hresponded : Responded text (k ++ [⟨.stream request, (.ok events, d)⟩]) := by
        refine ⟨h.accounted.model rfl _, ?_, ?_⟩
        · rw [timeOf_concat, h.noScript]
          rfl
        · rw [firstResponse_concat, h.noResponse]
          exact hr
      exact recordCallCost_timed hresponded
        (fun k entry a hk => hk.concat (.inl rfl) rfl) fun state' k' hk' => hk'
    next failure usage hc =>
      have hr : responseOf ⟨.stream request, .ok events⟩ = none := by rw [responseOf, hc]
      have hwaiting := h.concat (q := .stream request) (a := (.ok events, d)) (.inl rfl) rfl hr
      exact recordCallCost_timed hwaiting hcost fun state' k' hk' => ⟨hk', collectFrom_error hc⟩
  | .error .requestFailed =>
    have hwaiting := h.concat (q := .stream request) (a := (.error .requestFailed, d))
      (.inl rfl) rfl rfl
    apply recordCallCost_timed hwaiting hcost
    intro _ _ hk'
    split
    · exact ⟨hk', rfl⟩
    · exact ⟨trivial, fun a _ => hk'.concat (.inl rfl) rfl rfl⟩
  | .error .invalidEvent =>
    have hwaiting := h.concat (q := .stream request) (a := (.error .invalidEvent, d))
      (.inl rfl) rfl rfl
    exact recordCallCost_timed hwaiting hcost fun state' k' hk' => ⟨hk', rfl⟩
  | .error .capabilityUnavailable =>
    have hwaiting := h.concat (q := .stream request) (a := (.error .capabilityUnavailable, d))
      (.inl rfl) rfl rfl
    exact recordCallCost_timed hwaiting hcost fun state' k' hk' => ⟨hk', rfl⟩

theorem callModel_timed (h : Waiting k) (messages : List ModelMessage) (state : RunState) :
    (callModel config messages state).timed.Keeps (recording (reading start))
      (fun r k' => r.elim (Waiting k') (Called · k')) k := by
  rw [callModel, timed_loop]
  refine (keeps_loop (fun s k hk => callModelStep_timed hk _ s)
    (config.budgets.maxProviderRetries + 1) h).mono ?_
  intro r _ hr
  cases r with
  | none =>
    obtain ⟨_, hk'⟩ := hr
    exact hk'
  | some => exact hr

/-! ## a turn -/

def Unpolled (a : Attempt) (r : Attempt ⊕ Option AttemptEnd) : Prop :=
  r.elim (fun a' => a'.pollBudget = a.pollBudget)
    (fun e => ∀ e', e = some e' → ¬ e'.failedWith .pollBudgetExhausted)

theorem unpolled_failed {e : AttemptEnd} {cls : FailureClass} {reason : String}
    (he : e.outcome = .failed ⟨cls, reason⟩) (hcls : cls ≠ .pollBudgetExhausted) :
    Unpolled a (.inr (some e)) := by
  intro _ hsome hfailed
  cases hsome
  obtain ⟨reason', hr⟩ := hfailed
  rw [he] at hr
  cases hr
  exact hcls rfl

theorem unpolled_completed {e : AttemptEnd} {summary : String} {delivery : DeliveryOutcome}
    (he : e.outcome = .completed summary delivery) : Unpolled a (.inr (some e)) := by
  intro _ hsome hfailed
  cases hsome
  obtain ⟨reason', hr⟩ := hfailed
  rw [he] at hr
  cases hr

theorem unpolled_none : Unpolled a (.inr none) := by
  intro _ hsome
  cases hsome

theorem afterCall_unpolled (a : Attempt) (action : WorkerAction) :
    (afterCall config action a).Within (·.isSettling) (Unpolled a) := by
  apply (afterCall_guarded action a).mono
  intro r hr
  cases hr with
  | goesOn => exact rfl
  | stops _ _ _ hcls => exact unpolled_failed rfl (by rintro rfl; simp at hcls)

theorem settleCall_unpolled (turn : ToolTurn) (a : Attempt) {rest : Attempt → Turn}
    (hrest : ∀ a', a'.pollBudget = a.pollBudget → (rest a').Within (·.isSettling) (Unpolled a)) :
    (settleCall turn a rest).Within (·.isSettling) (Unpolled a) := by
  refine ⟨rfl, fun t => ?_⟩
  split
  · exact unpolled_failed rfl (by decide)
  · exact hrest _ rfl

theorem settleGoesOn_unpolled (turn : ToolTurn) (a : Attempt) :
    (settleCall turn a (.ret <| .inl ·)).Within (·.isSettling) (Unpolled a) :=
  settleCall_unpolled turn a fun _ ha' => ha'

theorem settleAfterCall_unpolled (turn : ToolTurn) (a : Attempt) (action : WorkerAction) :
    (settleCall turn a (afterCall config action)).Within (·.isSettling) (Unpolled a) := by
  apply settleCall_unpolled
  intro a' ha'
  apply (afterCall_unpolled a' action).mono
  intro r hr
  cases r with
  | inl => exact hr.trans ha'
  | inr => exact hr

def anyCall (_ : Query) : Prop := True

theorem within_any {α : Type} (x : Calls Answer α) : x.Within anyCall (fun _ => True) := by
  induction x with
  | ret => trivial
  | call q k ih => exact ⟨trivial, ih⟩

theorem declaredTool_unpolled (a : Attempt) (toolId : String) (question : Option String) :
    (declaredTool seams config a toolId question).Within anyCall (Unpolled a) := by
  unfold declaredTool
  split
  · rw [within_bind]
    apply (within_any _).mono
    intro r _
    cases r with
    | none => exact unpolled_none
    | some v =>
      exact (settleGoesOn_unpolled _ (a.dispatched _ v.2.1 v.2.2)).weaken fun _ _ => trivial
  · rw [within_bind]
    apply (within_any _).mono
    intro r _
    exact (settleGoesOn_unpolled r.1 (a.dispatched _ r.2 a.state)).weaken fun _ _ => trivial

theorem builtInTool_unpolled (a : Attempt) {action : WorkerAction}
    (hpoll : isPollShaped action = false) (dispatchStarted : Nat) :
    (builtInTool seams config a action dispatchStarted).Within anyCall (Unpolled a) := by
  rw [builtInTool, within_bind]
  apply (within_any _).mono
  rintro ⟨turn, executor⟩ _
  dsimp only
  rw [hpoll, Bool.and_false]
  exact (settleAfterCall_unpolled turn (a.dispatched action executor a.state) action).weaken
    fun _ _ => trivial

theorem act_unpolled (a : Attempt) (hpoll : asksPoll seams.helpers text = false) (task : WorkerTask)
    (dispatchStarted : Nat) :
    (act seams task config a text dispatchStarted).Within anyCall (Unpolled a) := by
  unfold act
  split
  next reason hparse =>
    dsimp only
    split
    · exact unpolled_failed rfl (by decide)
    · exact rfl
  next name hparse => exact rfl
  next summary success hparse =>
    split
    · exact unpolled_failed rfl (by decide)
    · rw [within_bind]
      apply (within_any _).mono
      intro r _
      cases r with
      | error => exact unpolled_failed rfl (by decide)
      | ok => exact unpolled_completed rfl
  next toolId question hparse => exact declaredTool_unpolled a toolId question
  next action hfinish hdeclared hparse =>
    apply builtInTool_unpolled
    rw [asksPoll, hparse] at hpoll
    exact hpoll

/-- what a turn adds to the budget, and when it ends the attempt for its sake -/
structure Charges (helpers : Helpers) (p : PollBudget) (r : Attempt ⊕ Option AttemptEnd)
    (turn : TimedTrace) : Prop where
  goesOn : ∀ a', r = .inl a' →
    a'.pollBudget = { p with spent := satAddDuration p.spent (charged helpers turn) } ∧
    a'.pollBudget.spent ≤ p.budget
  ends : ∀ e, r = .inr e → ((∃ e', e = some e' ∧ e'.failedWith .pollBudgetExhausted) ↔
    p.budget < satAddDuration p.spent (charged helpers turn))

/-- the budget of an attempt that goes on -/
structure WithinPoll (p : PollBudget) : Prop where
  enabled : p.budget ≠ 0
  spent_le : p.spent ≤ p.budget
  spent_fits : p.spent ≤ durationMax

theorem charges_of_unpolled (ha : WithinPoll a.pollBudget) {r : Attempt ⊕ Option AttemptEnd}
    (hr : Unpolled a r) (hpolls : polls helpers k = false) : Charges helpers a.pollBudget r k := by
  have hspent : satAddDuration a.pollBudget.spent (charged helpers k) = a.pollBudget.spent := by
    rw [charged_of_not_polls hpolls]
    exact Nat.min_eq_left ha.spent_fits
  constructor
  · rintro a' rfl
    have hsame : a'.pollBudget = a.pollBudget := hr
    rw [hspent, hsame]
    exact ⟨rfl, ha.spent_le⟩
  · rintro e rfl
    rw [hspent]
    refine iff_of_false ?_ (Nat.not_lt.mpr ha.spent_le)
    rintro ⟨e', he, hfailed⟩
    exact hr e' he hfailed

theorem dispatch_bash (ex : Executor) (secretShaped : String → Bool) (script : String) :
    (ex.dispatch secretShaped (.bash script)).Within (·.isBash) (fun _ => True) := by
  unfold Executor.dispatch
  split
  · trivial
  · show Calls.Within _ _ (ex.bashTool script)
    unfold Executor.bashTool Executor.runBash
    split
    · trivial
    · exact ⟨rfl, fun _ => trivial⟩

/-- after the charge nothing of the turn is counted any more -/
structure Counted (text : String) (time : Nat) (k : TimedTrace) : Prop where
  response : firstResponse k = some text
  time : timeOf Query.isBash k + timeOf Query.isModel k = time

theorem Counted.concat {time : Nat} (h : Counted text time k) (hq : q.isSettling = true)
    (a : Timed Answer q) : Counted text time (k ++ [⟨q, a⟩]) := by
  constructor
  · rw [firstResponse_concat, h.response]
    rfl
  · rw [timeOf_concat, timeOf_concat, ← h.time]
    cases q <;> first | rfl | cases hq

theorem Counted.charged {time : Nat} (h : Counted text time k)
    (htext : asksPoll helpers text = true) : charged helpers k = time := by
  have hpolls : polls helpers k = true := by
    rw [polls, h.response]
    exact htext
  rw [Worker.charged, scriptTime, waitTime, if_pos hpolls, if_pos hpolls, h.time]

theorem builtInTool_charged (ha : WithinPoll a.pollBudget)
    (henabled : config.guardrails.pollBudgetEnabled = true) {script : String}
    (hpoll : pollShaped script = true) (hk : Responded text k)
    (htext : asksPoll helpers text = true) :
    (builtInTool seams config a (.bash script) start).timed.Keeps (recording (reading start))
      (Charges helpers a.pollBudget) k := by
  rw [builtInTool, timed_bind, keeps_bind]
  -- the script runs
  refine ((dispatch_bash a.executor _ script).timed.keeps_inv
    (J := fun k => Accounted k ∧ firstResponse k = some text) (fun k q hJ hq => ⟨trivial,
      fun b _ => ⟨hJ.1.concat (.inr (.inl hq)), ?_⟩⟩) ⟨hk.accounted, hk.response⟩).mono ?_
  · show firstResponse (k ++ [⟨q, b⟩]) = some text
    rw [firstResponse_concat, hJ.2]
    rfl
  rintro ⟨turn, executor⟩ k1 ⟨-, hk1, hresponse⟩
  dsimp only
  rw [show (config.guardrails.pollBudgetEnabled && isPollShaped (.bash script)) = true by
    rw [henabled]; exact hpoll]
  -- the clock is read
  refine ⟨trivial, fun b hb => ?_⟩
  obtain ⟨t, d⟩ := b
  obtain ⟨rfl, rfl⟩ : t = start + elapsed k1 ∧ d = 0 := hb
  have hcounted : Counted text (elapsed k1)
      (k1 ++ [(⟨.now, (start + elapsed k1, 0)⟩ : Sigma (Timed Answer))]) := by
    constructor
    · rw [firstResponse_concat, hresponse]
      rfl
    · rw [timeOf_concat, timeOf_concat, hk1.split]
      simp [Nat.add_comm]
  have hcharge : a.pollBudget.charge (start + elapsed k1 - start) =
      (decide (a.pollBudget.budget < satAddDuration a.pollBudget.spent (elapsed k1)),
        { a.pollBudget with spent := satAddDuration a.pollBudget.spent (elapsed k1) }) := by
    rw [Nat.add_sub_cancel_left, PollBudget.charge, if_neg ha.enabled]
  have hsame : (a.dispatched (.bash script) executor a.state).pollBudget = a.pollBudget := rfl
  dsimp only
  rw [hsame, hcharge]
  split
  next hover =>
    refine ⟨fun e he => absurd he Sum.inr_ne_inl, fun e he => ?_⟩
    cases he
    have hcharged : charged helpers ((recording (reading start)).next k1 .now
        (start + elapsed k1, 0)) = elapsed k1 := hcounted.charged htext
    rw [hcharged]
    exact iff_of_true ⟨_, rfl, _, rfl⟩ (of_decide_eq_true hover)
  next hunder =>
    have hle : satAddDuration a.pollBudget.spent (elapsed k1) ≤ a.pollBudget.budget :=
      Nat.not_lt.mp fun hlt => hunder (decide_eq_true hlt)
    refine ((settleAfterCall_unpolled turn _ _).timed.keeps_inv
      (fun k q hJ hq => ⟨trivial, fun b _ => hJ.concat hq b⟩) hcounted).mono ?_
    rintro r k2 ⟨hr, hk2⟩
    have hcharged := hk2.charged htext
    constructor
    · rintro a' rfl
      have hbudget := show a'.pollBudget = _ from hr
      rw [hcharged, hbudget]
      exact ⟨rfl, hle⟩
    · rintro e rfl
      rw [hcharged]
      refine iff_of_false ?_ (Nat.not_lt.mpr hle)
      rintro ⟨e', he, hfailed⟩
      exact hr e' he hfailed

theorem turn_charged (ha : WithinPoll a.pollBudget)
    (henabled : config.guardrails.pollBudgetEnabled = true) (task : WorkerTask) :
    (turn seams task config a).timed.Keeps (recording (reading start))
      (Charges seams.helpers a.pollBudget) [] := by
  have hwaiting : Waiting [] := ⟨accounted_nil, rfl, rfl⟩
  have hnow : ∀ k (b : Timed Answer .now), Waiting k → reading start k .now b →
      Waiting (k ++ [⟨.now, b⟩]) :=
    fun k b hk hb => hk.concat (.inr hb.2) rfl rfl
  have hnone : ∀ k, Waiting k → polls seams.helpers k = false := by
    intro k hk
    rw [polls, hk.noResponse]
    rfl
  refine ⟨trivial, fun t0 h0 => ?_⟩
  have hk0 := hnow _ t0 hwaiting h0
  obtain ⟨dispatchStarted, d0⟩ := t0
  obtain ⟨rfl, -⟩ : start = dispatchStarted ∧ d0 = 0 := ⟨h0.1.symm, h0.2⟩
  refine ⟨trivial, fun t1 h1 => ?_⟩
  have hk1 := hnow _ t1 hk0 h1
  dsimp only
  split
  · exact charges_of_unpolled ha (unpolled_failed rfl (by decide)) (hnone _ hk1)
  refine ⟨trivial, fun t2 h2 => ?_⟩
  have hk2 := hnow _ t2 hk1 h2
  dsimp only
  split
  · exact charges_of_unpolled ha (unpolled_failed rfl (by decide)) (hnone _ hk2)
  split
  · exact charges_of_unpolled ha (unpolled_failed rfl (by decide)) (hnone _ hk2)
  rw [timed_bind, keeps_bind]
  apply (callModel_timed hk2 _ _).mono
  intro r k' hr
  match r with
  | none => exact charges_of_unpolled ha unpolled_none (hnone _ hr)
  | some (.error failure, state) =>
    obtain ⟨hk', hcls⟩ := hr
    refine charges_of_unpolled ha (unpolled_failed rfl ?_) (hnone _ hk')
    rw [hcls]
    decide
  | some (.ok text, state) =>
    have hk' : Responded text k' := hr
    dsimp only
    cases hpoll : asksPoll seams.helpers text with
    | false =>
      refine ((act_unpolled _ hpoll task _).timed.keeps_inv
        (J := fun k => firstResponse k = some text) (fun k q hJ _ => ⟨trivial, fun b _ => ?_⟩)
        hk'.response).mono ?_
      · show firstResponse (k ++ [⟨q, b⟩]) = some text
        rw [firstResponse_concat, hJ]
        rfl
      · rintro r' k'' ⟨hr', hk''⟩
        have hpolls : polls seams.helpers k'' = false := by
          rw [polls, hk'']
          exact hpoll
        exact charges_of_unpolled ha hr' hpolls
    | true =>
      obtain ⟨script, hparse, hshaped⟩ : ∃ script,
          seams.helpers.parseAction text = .ok (.bash script) ∧ pollShaped script = true := by
        unfold asksPoll at hpoll
        split at hpoll
        next action hparse =>
          cases action with
          | bash script => exact ⟨script, hparse, hpoll⟩
          | _ => cases hpoll
        · cases hpoll
      have hact : ∀ a', act seams task config a' text start =
          builtInTool seams config a' (.bash script) start := by
        intro _
        unfold act
        rw [hparse]
      rw [hact]
      exact builtInTool_charged (a := Attempt.say { a with
        turnsThisAttempt := a.turnsThisAttempt + 1, state } .assistant text)
        ha henabled hshaped hk' hpoll

/-! ## an attempt -/

/-- A world with a clock: it does not go back, reading it takes no time, and what it reads is a
duration. -/
structure ClockedWorld where
  State : Type
  answer : State → (q : Query) → Answer q × State
  clock : State → Nat
  mono : ∀ s q, clock s ≤ clock (answer s q).2
  reads : ∀ s, (answer s .now).1 = clock s
  instant : ∀ s, clock (answer s .now).2 = clock s
  bounded : ∀ s, clock s ≤ durationMax

namespace ClockedWorld
variable (world : ClockedWorld)

def timed (s : world.State) (q : Query) : Timed Answer q × world.State :=
  withClock world.answer world.clock s q

/-- the clock agrees with what was recorded -/
def Agrees (start : Nat) (k : TimedTrace) (s : world.State) : Prop :=
  world.clock s = start + elapsed k

theorem agrees_step {k : TimedTrace} {s : world.State} (h : world.Agrees start k s) (q : Query) :
    (recording (reading start)).expects k q (world.timed s q).1 ∧
      world.Agrees start ((recording (reading start)).next k q (world.timed s q).1)
        (world.timed s q).2 := by
  constructor
  · show reading start k q (world.timed s q).1
    cases q with
    | now => exact ⟨(world.reads s).trans h, by
        show world.clock (world.answer s .now).2 - world.clock s = 0
        rw [world.instant s, Nat.sub_self]⟩
    | _ => trivial
  · show world.clock (world.answer s q).2 = start + elapsed (k ++ [⟨q, (world.timed s q).1⟩])
    rw [elapsed_concat, ← Nat.add_assoc, ← h]
    exact (Nat.add_sub_cancel' (world.mono s q)).symm

variable {world}

theorem run_keeps {α : Type} {x : Calls Answer α} {post : α → TimedTrace → Prop} {s : world.State}
    (h : x.timed.Keeps (recording (reading (world.clock s))) post []) :
    post (x.run world.answer s).1 (x.timed.trace world.timed s) ∧
      world.clock (x.run world.answer s).2 =
        world.clock s + elapsed (x.timed.trace world.timed s) := by
  have hstart : world.Agrees (world.clock s) [] s := rfl
  have hrun := h.run (h := world.timed)
    (fun k s' q hk _ => world.agrees_step hk q) hstart
  have hsame : x.timed.run world.timed s = x.run world.answer s := run_timed world.answer world.clock x s
  rw [hsame, recording_after] at hrun
  exact hrun

end ClockedWorld

def turnTraces (world : ClockedWorld) (seams : Seams) (task : WorkerTask) (config : WorkerConfig) :
    Nat → Attempt → world.State → List TimedTrace :=
  roundTraces world.timed (fun a => (turn seams task config a).timed)

def pollTime (helpers : Helpers) (turns : List TimedTrace) : Nat :=
  (turns.map (scriptTime helpers)).sum

def modelTime (helpers : Helpers) (turns : List TimedTrace) : Nat :=
  (turns.map (waitTime helpers)).sum

theorem charged_le_elapsed (helpers : Helpers) (turn : TimedTrace) : charged helpers turn ≤ elapsed turn := by
  have hsum := timeOf_add_le (P := Query.isBash) (R := Query.isModel)
    (fun q hq => by cases q <;> first | rfl | cases hq) turn
  unfold charged scriptTime waitTime
  split
  · exact hsum
  · exact Nat.zero_le _

/-- the attempt ended for the sake of the budget -/
def Exhausted (r : Option AttemptEnd) : Prop :=
  ∃ e, r = some e ∧ e.failedWith .pollBudgetExhausted

theorem turns_charged (world : ClockedWorld) (seams : Seams)
    (henabled : config.guardrails.pollBudgetEnabled = true) (task : WorkerTask) (n : Nat)
    (ha : WithinPoll a.pollBudget) {s : world.State} (hs : a.pollBudget.spent ≤ world.clock s) :
    Exhausted (((Calls.loop (turn seams task config) n a).run world.answer s).1.join) ↔
      a.pollBudget.budget < a.pollBudget.spent +
        ((turnTraces world seams task config n a s).map (charged seams.helpers)).sum := by
  induction n generalizing a s with
  | zero =>
    refine iff_of_false ?_ ?_
    · rintro ⟨e, he, -⟩
      cases he
    · have := ha.spent_le
      simp only [turnTraces, roundTraces, List.map_nil, List.sum_nil]
      omega
  | succ n ih =>
    obtain ⟨hcharges, hclock⟩ := ClockedWorld.run_keeps (turn_charged ha henabled task)
    set result := (turn seams task config a).run world.answer s with hresult
    set slice := (turn seams task config a).timed.trace world.timed s with hslice
    have hle := charged_le_elapsed seams.helpers slice
    have hbound := world.bounded result.2
    have hspent : satAddDuration a.pollBudget.spent (charged seams.helpers slice) =
        a.pollBudget.spent + charged seams.helpers slice := by
      rw [satAddDuration]
      omega
    have hsame : (turn seams task config a).timed.run world.timed s = result :=
      run_timed world.answer world.clock _ s
    rw [turnTraces, roundTraces, hsame, List.map_cons, List.sum_cons, Calls.loop, run_bind]
    cases hr : result.1 with
    | inl a' =>
      obtain ⟨hbudget, hunder⟩ := hcharges.goesOn a' hr
      rw [hspent] at hbudget
      have hb : a'.pollBudget.budget = a.pollBudget.budget := by rw [hbudget]
      have hsp : a'.pollBudget.spent = a.pollBudget.spent + charged seams.helpers slice := by
        rw [hbudget]
      have hnext := ih (s := result.2)
        ⟨by rw [hb]; exact ha.enabled, by rw [hb]; exact hunder, by omega⟩ (by omega)
      rw [hb, hsp, Nat.add_assoc] at hnext
      exact hnext
    | inr e =>
      have hend := hcharges.ends e hr
      rw [hspent] at hend
      rw [List.map_nil, List.sum_nil, Nat.add_zero, ← hend]
      exact Iff.rfl

def attemptTurns (world : ClockedWorld) (seams : Seams) (task : WorkerTask) (config : WorkerConfig)
    (executor : Executor) (state : RunState) (replanNote replanSummary : Option String)
    (s : world.State) : List TimedTrace :=
  turnTraces world seams task config (config.budgets.maxTurnsPerAttempt + 1)
    (.begin seams.helpers task config executor state replanNote replanSummary
      (world.answer s .now).1) (world.answer s .now).2

theorem sum_charged (turns : List TimedTrace) :
    (turns.map (charged helpers)).sum = pollTime helpers turns + modelTime helpers turns := by
  induction turns with
  | nil => rfl
  | cons _ _ ih =>
    unfold pollTime modelTime at ih ⊢
    simp only [List.map_cons, List.sum_cons, charged]
    omega

theorem attempt_charged (world : ClockedWorld)
    (henabled : config.guardrails.pollBudgetEnabled = true) (task : WorkerTask) (executor : Executor)
    (state : RunState) (replanNote replanSummary : Option String) (s : world.State) :
    Exhausted ((runAttempt seams task config executor state replanNote replanSummary).run
      world.answer s).1 ↔ config.guardrails.ciPollBudget < pollTime seams.helpers
          (attemptTurns world seams task config executor state replanNote replanSummary s) +
        modelTime seams.helpers
          (attemptTurns world seams task config executor state replanNote replanSummary s) := by
  have hne : config.guardrails.ciPollBudget ≠ 0 := by
    simpa [GuardrailsConfig.pollBudgetEnabled] using henabled
  have hcharged := turns_charged world seams henabled task
    (config.budgets.maxTurnsPerAttempt + 1)
    (a := .begin seams.helpers task config executor state replanNote replanSummary
      (world.answer s .now).1) ⟨hne, Nat.zero_le _, Nat.zero_le _⟩
    (s := (world.answer s .now).2) (Nat.zero_le _)
  rw [sum_charged] at hcharged
  unfold runAttempt
  rw [Calls.run, run_bind]
  rw [show (Attempt.begin seams.helpers task config executor state replanNote replanSummary
    (world.answer s .now).1).pollBudget.spent = 0 from rfl, Nat.zero_add] at hcharged
  exact hcharged

/-- The attempt ends with the budget exhausted exactly when its poll-shaped scripts took longer than the
budget, unless they stayed within it and the model calls of their turns made up the rest. -/
theorem poll_budget_iff (world : ClockedWorld) (seams : Seams) (task : WorkerTask)
    (config : WorkerConfig) (henabled : config.guardrails.pollBudgetEnabled = true)
    (executor : Executor) (state : RunState) (replanNote replanSummary : Option String)
    (s : world.State) :
    (Exhausted ((runAttempt seams task config executor state replanNote replanSummary).run
        world.answer s).1 ↔
      config.guardrails.ciPollBudget < pollTime seams.helpers
        (attemptTurns world seams task config executor state replanNote replanSummary s)) ↔
    (config.guardrails.ciPollBudget < pollTime seams.helpers
        (attemptTurns world seams task config executor state replanNote replanSummary s) ∨
      pollTime seams.helpers
        (attemptTurns world seams task config executor state replanNote replanSummary s) +
      modelTime seams.helpers
        (attemptTurns world seams task config executor state replanNote replanSummary s) ≤
        config.guardrails.ciPollBudget) := by
  rw [attempt_charged world henabled]
  omega

/-! ### a slow model -/

def watcher : Helpers :=
  { parseAction := fun _ => .ok (.bash "gh run watch")
    containsSecretShaped := fun _ => false
    systemPrompt := fun _ => ""
    taskPrompt := fun _ _ _ => ""
    forReplan := fun _ _ => none }

def slowAnswer (s : Nat) : (q : Query) → Answer q × Nat
  | .canonicalRoot _ => (.ok "/w", s)
  | .now => (min s durationMax, s)
  | .stream _ => (.ok [some (.textDelta "watch"), some .completed], s + 40 * 60 * 1000000000)
  | .recordCost _ => ((), s)
  | .sleep delay => ((), s + delay)
  | .resolve _ _ => (.error .empty, s)
  | .metadata _ => (none, s)
  | .read _ => (.io, s)
  | .isDir _ => (false, s)
  | .searchFiles _ _ _ => ([], s)
  | .createParent _ => (true, s)
  | .write _ _ => (true, s)
  | .runBash _ _ => (.ok ⟨some 0, "", ""⟩, s + 1000000000)
  | .runBashWithin _ _ _ => (none, s)
  | .progressFingerprint _ _ => (0, s)
  | .deliver _ => (.error "", s)

theorem le_slowAnswer (s : Nat) (q : Query) : s ≤ (slowAnswer s q).2 := by
  cases q <;> simp [slowAnswer]

def slowModel : ClockedWorld :=
  { State := Nat
    answer := slowAnswer
    clock := fun s => min s durationMax
    mono := fun s q => by
      have hle := le_slowAnswer s q
      omega
    reads := fun _ => rfl
    instant := fun _ => rfl
    bounded := fun s => Nat.min_le_right s durationMax }

def watchingConfig : WorkerConfig := WorkerConfig.new "p" "m" .bootstrapDefaults

def watchingLoop : RunLoop := .begin ⟨"t", "t", ""⟩ watchingConfig "/w" .given 0

theorem poll_budget_iff_watching :
    watchingConfig.guardrails.pollBudgetEnabled = true ∧
    ((Exhausted ((runAttempt (childSeams watcher) ⟨"t", "t", ""⟩ watchingConfig watchingLoop.executor
        watchingLoop.state none none).run slowModel.answer (0 : Nat)).1 ↔
      watchingConfig.guardrails.ciPollBudget < pollTime watcher (attemptTurns slowModel
        (childSeams watcher) ⟨"t", "t", ""⟩ watchingConfig watchingLoop.executor watchingLoop.state
        none none (0 : Nat))) ↔
      (watchingConfig.guardrails.ciPollBudget < pollTime watcher (attemptTurns slowModel
        (childSeams watcher) ⟨"t", "t", ""⟩ watchingConfig watchingLoop.executor watchingLoop.state
        none none (0 : Nat)) ∨
      pollTime watcher (attemptTurns slowModel (childSeams watcher) ⟨"t", "t", ""⟩ watchingConfig
        watchingLoop.executor watchingLoop.state none none (0 : Nat)) +
      modelTime watcher (attemptTurns slowModel (childSeams watcher) ⟨"t", "t", ""⟩ watchingConfig
        watchingLoop.executor watchingLoop.state none none (0 : Nat)) ≤
        watchingConfig.guardrails.ciPollBudget)) :=
  ⟨by decide, poll_budget_iff slowModel (childSeams watcher) ⟨"t", "t", ""⟩ watchingConfig (by decide)
    watchingLoop.executor watchingLoop.state none none (0 : Nat)⟩

/-- one second of polling after 40 minutes of the model exhausts a budget of 30 minutes -/
theorem waiting_is_charged :
    Exhausted ((runAttempt (childSeams watcher) ⟨"t", "t", ""⟩ watchingConfig watchingLoop.executor
      watchingLoop.state none none).run slowModel.answer (0 : Nat)).1 ∧
    pollTime watcher (attemptTurns slowModel (childSeams watcher) ⟨"t", "t", ""⟩ watchingConfig
      watchingLoop.executor watchingLoop.state none none (0 : Nat)) = 1000000000 ∧
    watchingConfig.guardrails.ciPollBudget = 30 * 60 * 1000000000 := by
  refine ⟨?_, by decide +kernel, rfl⟩
  have hend : ((runAttempt (childSeams watcher) ⟨"t", "t", ""⟩ watchingConfig watchingLoop.executor
      watchingLoop.state none none).run slowModel.answer (0 : Nat)).1.map (·.outcome) =
      some (.failed ⟨.pollBudgetExhausted, "ci-poll-budget-exhausted"⟩) := by decide +kernel
  obtain ⟨e, he, houtcome⟩ := Option.map_eq_some_iff.mp hend
  exact ⟨e, he, _, houtcome⟩

end Worker

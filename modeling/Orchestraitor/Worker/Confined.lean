import Orchestraitor.Worker.ExecutorRules

/-!
# What a sub-session can do

An action reaches the world through `Executor.dispatch` or through `dispatchSubagent`, each with its
own gate.  Inside a sub-session both are closed but for the tools of its allowlist: whatever the
responses, every call that is not the loop's own serves the newest response, and its tool is on the
list (`ConfinedTo`); every request has one receipt, in order (`ReceiptFor`).
-/

namespace Worker
open Base Base.Calls List

/-! ## requests and their receipts -/

/-- a response that leaves a receipt -/
inductive Asked where
  | tool (action : WorkerAction)
  | unknown (name : String)

def askedBy (helpers : Helpers) (text : String) : Option Asked :=
  match helpers.parseAction text with
  | .error (.malformed _) => none
  | .error (.unknownTool name) => some (.unknown name)
  | .ok (.finish _ _) => none
  | .ok action => some (.tool action)

def requests (helpers : Helpers) (trace : List (Sigma Answer)) : List Asked :=
  (trace.filterMap responseOf).filterMap (askedBy helpers)

def toolNameOf : WorkerAction → String
  | .readFile _ => "read_file"
  | .writeFile _ _ => "write_file"
  | .search _ _ => "search"
  | .bash _ => "bash"
  | .think _ _ _ _ _ _ _ _ => "think"
  | .declaredTool toolId _ => toolId
  | .finish _ _ => "finish"

def Asked.toolName : Asked → String
  | .tool action => toolNameOf action
  | .unknown name => name

def grants (allowed : List InternalTool) (action : WorkerAction) : Bool :=
  match Executor.internalActionOf action with
  | .allowed tool => tool ∈ allowed
  | _ => false

def Asked.granted (allowed : List InternalTool) : Asked → Bool
  | .tool action => grants allowed action
  | .unknown _ => false

/-- the receipt that a response leaves -/
structure ReceiptFor (allowed : List InternalTool) (asked : Asked) (receipt : ToolReceipt) :
    Prop where
  tool : receipt.tool = asked.toolName
  refused : asked.granted allowed = false → receipt.outcome = .refused

/-! ## the calls of an action -/

/-- the calls that carry out an action -/
def serves : WorkerAction → Query → Prop
  | .readFile path, .resolve _ path' => path' = path
  | .readFile _, .metadata _ => True
  | .readFile _, .read _ => True
  | .search _ path, .resolve _ path' => path = some path'
  | .search _ _, .isDir _ => True
  | .search pattern _, .searchFiles _ _ pattern' => pattern' = pattern
  | .bash script, .runBash _ script' => script' = script
  | _, _ => False

/-- every call but those of the loop and the model calls carries out the newest response, whose tool
is on the allowlist -/
def ConfinedTo (helpers : Helpers) (allowed : List InternalTool) (trace : List (Sigma Answer)) :
    Prop :=
  ∀ before q a after, trace = before ++ ⟨q, a⟩ :: after → q.isLoop = false →
    (∀ request, q ≠ .stream request) →
    ∃ text action, lastResponse before = some text ∧ helpers.parseAction text = .ok action ∧
      grants allowed action = true ∧ serves action q

/-- `ex'` is `ex` after a dispatch of `tool` that wrote nothing -/
structure Executor.Left (tool : String) (ex ex' : Executor) : Prop where
  receipt : ∃ receipt, ex'.receipts = ex.receipts ++ [receipt] ∧ receipt.tool = tool
  policy : ex'.policy = ex.policy
  writes : ex'.untrustedWrites = ex.untrustedWrites
  records : tool = "think" ∨ ex'.reasoningRecords = ex.reasoningRecords

namespace Executor
variable (ex : Executor)

theorem left_pushReceipt (tool : String) (admitted : Bool) (outcome : ReceiptOutcome)
    (reason : Option String) (exitCode : Option Int) :
    Left tool ex (ex.pushReceipt tool admitted outcome reason exitCode) :=
  ⟨⟨_, rfl, rfl⟩, rfl, rfl, .inr rfl⟩

theorem left_refusal (tool : String) (admitted : Bool) (reason : String) :
    Left tool ex (ex.refusal tool admitted reason).2 := ex.left_pushReceipt ..

theorem readFile_serves (path : String) :
    (ex.readFile path).Within (serves (.readFile path)) (Left "read_file" ex ·.2) := by
  refine ⟨rfl, fun resolved => ?_⟩
  cases resolved with
  | error => exact ex.left_refusal ..
  | ok =>
    refine ⟨trivial, fun metadata => ?_⟩
    cases metadata with
    | none => exact ex.left_refusal ..
    | some =>
      dsimp only
      split
      · exact ex.left_refusal ..
      split
      · exact ex.left_refusal ..
      refine ⟨trivial, fun content => ?_⟩
      cases content with
      | io => exact ex.left_refusal ..
      | nonUtf8 => exact ex.left_refusal ..
      | text => exact ex.left_pushReceipt ..

theorem searchIn_serves (base pattern : String) (path : Option String) :
    (ex.searchIn base pattern).Within (serves (.search pattern path)) (Left "search" ex ·.2) := by
  refine ⟨trivial, fun dir => ?_⟩
  dsimp only
  split
  · exact ex.left_refusal ..
  · exact ⟨rfl, fun found => ex.left_pushReceipt ..⟩

theorem search_serves (pattern : String) (path : Option String) :
    (ex.search pattern path).Within (serves (.search pattern path)) (Left "search" ex ·.2) := by
  cases path with
  | none => exact ex.searchIn_serves ..
  | some =>
    refine ⟨rfl, fun resolved => ?_⟩
    cases resolved with
    | error => exact ex.left_refusal ..
    | ok => exact ex.searchIn_serves ..

theorem bashTool_serves (script : String) :
    (ex.bashTool script).Within (serves (.bash script)) (Left "bash" ex ·.2) := by
  have hturn : ∀ run, Left "bash" ex (ex.bashTurn run).2 := by
    intro run
    cases run <;> exact ex.left_pushReceipt ..
  unfold bashTool runBash
  split
  · exact hturn _
  · exact ⟨rfl, fun run => hturn run⟩

theorem think_left (secretShaped : String → Bool) (t : Thought) :
    Left "think" ex (ex.think secretShaped t).2 := by
  have hrefused : ∀ reason, Left "think" ex (ex.thinkRefusal t reason).2 :=
    fun reason => ⟨⟨_, rfl, rfl⟩, rfl, rfl, .inl rfl⟩
  unfold think
  split
  · exact hrefused _
  split
  · exact hrefused _
  split
  · exact hrefused _
  split
  · dsimp only
    split <;> exact hrefused _
  · split
    · exact hrefused _
    · exact ⟨⟨_, rfl, rfl⟩, rfl, rfl, .inl rfl⟩

/-! ### inside a sub-session -/

theorem admitInternal_cases (hdepth : 0 < ex.policy.subsessionDepth) (action : WorkerAction) :
    (∃ turn, ex.admitInternal action =
      some (turn, ex.pushReceipt (toolNameOf action) true .refused (some "tool-not-allowed") none)) ∨
    ex.admitInternal action = none ∧ (grants ex.policy.allowedInternal action = true ∨
      (∃ toolId question, action = .declaredTool toolId question) ∨
      ∃ summary success, action = .finish summary success) := by
  have hne : ex.policy.subsessionDepth ≠ 0 := by omega
  have hallowed : ∀ (tool : InternalTool), internalActionOf action = .allowed tool →
      tool.toolName = toolNameOf action → (isThink action = true → ex.policy.thinkEnabled = true) →
      (∃ turn, ex.admitInternal action = some (turn,
        ex.pushReceipt (toolNameOf action) true .refused (some "tool-not-allowed") none)) ∨
      ex.admitInternal action = none ∧ grants ex.policy.allowedInternal action = true := by
    intro _ hact hname hthink
    have hswitch : ¬ ((!ex.policy.thinkEnabled && isThink action) = true) := by
      cases hcase : isThink action with
      | false => simp
      | true => simp [hthink hcase]
    unfold admitInternal
    rw [if_neg hswitch, if_neg hne, hact]
    dsimp only
    split
    next hmem =>
      right
      refine ⟨rfl, ?_⟩
      rw [grants, hact]
      exact decide_eq_true hmem
    next hmem =>
      left
      rw [← hname]
      exact ⟨_, rfl⟩
  cases action with
  | readFile => exact (hallowed .readFile rfl rfl nofun).imp id (And.imp id Or.inl)
  | search => exact (hallowed .search rfl rfl nofun).imp id (And.imp id Or.inl)
  | bash => exact (hallowed .bash rfl rfl nofun).imp id (And.imp id Or.inl)
  | think =>
    cases hswitch : ex.policy.thinkEnabled with
    | true => exact (hallowed .think rfl rfl fun _ => hswitch).imp id (And.imp id Or.inl)
    | false =>
      left
      unfold admitInternal
      rw [hswitch]
      exact ⟨_, rfl⟩
  | writeFile =>
    left
    unfold admitInternal
    rw [if_neg (by simp [isThink]), if_neg hne]
    exact ⟨_, rfl⟩
  | declaredTool toolId question =>
    right
    unfold admitInternal
    rw [if_neg (by simp [isThink]), if_neg hne]
    exact ⟨rfl, .inr (.inl ⟨toolId, question, rfl⟩)⟩
  | finish summary success =>
    right
    unfold admitInternal
    rw [if_neg (by simp [isThink]), if_neg hne]
    exact ⟨rfl, .inr (.inr ⟨summary, success, rfl⟩)⟩

/-- what the dispatch of a request leaves inside a sub-session -/
structure Confining (ex : Executor) (asked : Asked) (ex' : Executor) : Prop where
  receipt : ∃ receipt, ex'.receipts = ex.receipts ++ [receipt] ∧
    ReceiptFor ex.policy.allowedInternal asked receipt
  policy : ex'.policy = ex.policy
  writes : ex'.untrustedWrites = ex.untrustedWrites
  records : .think ∉ ex.policy.allowedInternal → ex'.reasoningRecords = ex.reasoningRecords

theorem confining_refused (asked : Asked) (admitted : Bool) (reason : Option String) :
    ex.Confining asked (ex.pushReceipt asked.toolName admitted .refused reason none) :=
  ⟨⟨_, rfl, rfl, fun _ => rfl⟩, rfl, rfl, fun _ => rfl⟩

theorem Left.confining {ex ex' : Executor} (action : WorkerAction)
    (h : Left (toolNameOf action) ex ex')
    (hgrants : grants ex.policy.allowedInternal action = true) :
    ex.Confining (.tool action) ex' := by
  obtain ⟨receipt, hreceipts, htool⟩ := h.receipt
  have hnone : (Asked.tool action).granted ex.policy.allowedInternal = false →
      receipt.outcome = .refused := by
    intro hfalse
    exact absurd (hgrants.symm.trans hfalse) Bool.true_eq_false_eq_False
  refine ⟨⟨receipt, hreceipts, htool, hnone⟩, h.policy, h.writes, fun hnot => ?_⟩
  cases h.records with
  | inr hrecords => exact hrecords
  | inl hname =>
    -- a thought that is granted has `think` on the list
    cases action with
    | think => exact absurd (of_decide_eq_true hgrants) hnot
    | readFile | search | bash => exact absurd hname (by simp [toolNameOf])
    | writeFile | declaredTool | finish => cases hgrants

theorem dispatchDeclared_confined (hdepth : 0 < ex.policy.subsessionDepth) (toolId : String) :
    ex.dispatchDeclared toolId = .ret (ex.admittedRefusal toolId "subsession-depth-exceeded") := by
  unfold dispatchDeclared
  rw [if_pos hdepth]

theorem dispatch_confined (hdepth : 0 < ex.policy.subsessionDepth) (secretShaped : String → Bool)
    (action : WorkerAction) (hfinish : ∀ summary success, action ≠ .finish summary success) :
    (ex.dispatch secretShaped action).Within
      (fun q => grants ex.policy.allowedInternal action = true ∧ serves action q)
      (fun r => ex.Confining (.tool action) r.2) := by
  unfold dispatch
  obtain ⟨turn, hrefused⟩ | ⟨hnone, hcase⟩ := ex.admitInternal_cases hdepth action
  · rw [hrefused]
    exact ex.confining_refused (.tool action) true _
  rw [hnone]
  obtain hgrants | ⟨toolId, question, rfl⟩ | ⟨summary, success, rfl⟩ := hcase
  · cases action with
    | readFile path =>
      refine ((ex.readFile_serves path).weaken fun q hq => ⟨hgrants, hq⟩).mono fun r hr => ?_
      exact Left.confining (.readFile path) hr hgrants
    | search pattern path =>
      refine ((ex.search_serves pattern path).weaken fun q hq => ⟨hgrants, hq⟩).mono fun r hr => ?_
      exact Left.confining (.search pattern path) hr hgrants
    | bash script =>
      refine ((ex.bashTool_serves script).weaken fun q hq => ⟨hgrants, hq⟩).mono fun r hr => ?_
      exact Left.confining (.bash script) hr hgrants
    | think =>
      exact Left.confining (.think ..) (ex.think_left secretShaped _) hgrants
    | writeFile | declaredTool | finish => cases hgrants
  · show Calls.Within _ _ (ex.dispatchDeclared toolId)
    rw [ex.dispatchDeclared_confined hdepth]
    exact ex.confining_refused (.tool (.declaredTool toolId question)) true _
  · exact absurd rfl (hfinish summary success)

end Executor

/-! ## a run -/

/-- a monitor that remembers the responses -/
def confinement (helpers : Helpers) (allowed : List InternalTool) : Monitor Answer (List String) :=
  { permits := fun k q => q.isLoop = true ∨ (∃ request, q = .stream request) ∨
      ∃ text action, k.getLast? = some text ∧ helpers.parseAction text = .ok action ∧
        grants allowed action = true ∧ serves action q
    expects := fun _ _ _ => True
    next := fun k q a => k ++ (responseOf ⟨q, a⟩).toList }

/-- the executor of a sub-session after some responses -/
structure Confined (helpers : Helpers) (allowed : List InternalTool) (responses : List String)
    (ex : Executor) : Prop where
  depth : 0 < ex.policy.subsessionDepth
  surface : ex.policy.allowedInternal = allowed
  receipts : List.Forall₂ (ReceiptFor allowed) (responses.filterMap (askedBy helpers)) ex.receipts
  writes : ex.untrustedWrites = []
  records : InternalTool.think ∉ allowed → ex.reasoningRecords = []

section run
variable {helpers : Helpers} {allowed : List InternalTool} {responses : List String}
  {ex ex' : Executor} {text : String}

theorem Confined.silent (h : Confined helpers allowed responses ex)
    (htext : askedBy helpers text = none) : Confined helpers allowed (responses ++ [text]) ex := by
  refine ⟨h.depth, h.surface, ?_, h.writes, h.records⟩
  simpa [htext] using h.receipts

theorem Confined.asked (h : Confined helpers allowed responses ex) {asked : Asked}
    (htext : askedBy helpers text = some asked) (hnext : ex.Confining asked ex') :
    Confined helpers allowed (responses ++ [text]) ex' := by
  obtain ⟨receipt, hreceipts, hfor⟩ := hnext.receipt
  rw [h.surface] at hfor
  refine ⟨?_, ?_, ?_, ?_, ?_⟩
  · rw [hnext.policy]
    exact h.depth
  · rw [hnext.policy]
    exact h.surface
  · rw [filterMap_append, hreceipts]
    apply rel_append h.receipts
    simpa [htext] using hfor
  · rw [hnext.writes]
    exact h.writes
  · intro hnot
    rw [hnext.records (by rwa [h.surface])]
    exact h.records hnot

/-- the response `text` is pending -/
def Pending (helpers : Helpers) (allowed : List InternalTool) (responses : List String)
    (text : String) (ex : Executor) : Prop :=
  ∃ earlier, responses = earlier ++ [text] ∧ Confined helpers allowed earlier ex

theorem dispatchSubagent_refuses {seams : Seams} {config : WorkerConfig}
    (hdepth : 0 < config.subsessionDepth) (ex : Executor) (state : RunState) (toolId : String)
    (question : Option String) : dispatchSubagent seams config ex state toolId question =
      .ret (some (refuseSubagent ex state toolId "subsession-depth-exceeded"
        "tool call refused: subsession-depth-exceeded")) := by
  unfold dispatchSubagent
  rw [if_pos hdepth]

theorem confined_acts {seams : Seams} (hhelpers : seams.helpers = helpers)
    (hdeliver : seams.deliver = pendingDelivery) {config : WorkerConfig}
    (hdepth : 0 < config.subsessionDepth) :
    Acts (confinement helpers allowed) seams config (Confined helpers allowed)
      (Pending helpers allowed) where
  loop := by
    intro k q hq
    refine ⟨.inl hq, fun a => ?_⟩
    cases q <;> first | exact append_nil k | cases hq
  stream := fun k request => .inr (.inl ⟨request, rfl⟩)
  silent := by
    intro k request a ex h _ hr
    show Confined helpers allowed (k ++ (responseOf ⟨.stream request, a⟩).toList) ex
    rw [hr, Option.toList_none, append_nil]
    exact h
  response := by
    intro k request a ex text h _ hr
    show Pending helpers allowed (k ++ (responseOf ⟨.stream request, a⟩).toList) text ex
    rw [hr]
    exact ⟨k, rfl, h⟩
  malformed := by
    rintro k text ex reason ⟨earlier, rfl, h⟩ hparse
    rw [hhelpers] at hparse
    exact h.silent (by rw [askedBy, hparse])
  unknown := by
    rintro k text ex name ⟨earlier, rfl, h⟩ hparse
    rw [hhelpers] at hparse
    exact h.asked (by rw [askedBy, hparse]) (ex.confining_refused (.unknown name) false _)
  gaveUp := by
    rintro k text ex summary ⟨earlier, rfl, h⟩ hparse
    rw [hhelpers] at hparse
    exact h.silent (by rw [askedBy, hparse])
  finish := by
    rintro k text ex summary ⟨earlier, rfl, h⟩ hparse request
    rw [hhelpers] at hparse
    rw [hdeliver]
    exact h.silent (by rw [askedBy, hparse])
  dispatch := by
    rintro k text ex action ⟨earlier, rfl, h⟩ hparse hfinish
    rw [hhelpers] at hparse
    have hasked : askedBy helpers text = some (.tool action) := by
      rw [askedBy, hparse]
      cases action <;> first | rfl | exact absurd rfl (hfinish _ _)
    have hwithin := ex.dispatch_confined h.depth seams.helpers.containsSecretShaped action hfinish
    rw [h.surface] at hwithin
    refine (hwithin.keeps fun q hq => ?_).mono ?_
    · refine ⟨.inr (.inr ⟨text, action, getLast?_concat, hparse, hq⟩), fun a => ?_⟩
      -- a tool call is no response
      have hresponse : responseOf ⟨q, a⟩ = none := by
        cases q with
        | stream =>
          have hserves := hq.2
          cases action <;> cases hserves
        | _ => rfl
      show _ ++ (responseOf ⟨q, a⟩).toList = _
      rw [hresponse, Option.toList_none, append_nil]
    · rintro r k' ⟨hr, rfl⟩
      exact h.asked hasked hr
  subagent := by
    rintro k text ex toolId question ⟨earlier, rfl, h⟩ hparse state
    rw [hhelpers] at hparse
    rw [dispatchSubagent_refuses hdepth]
    intro v hv
    cases hv
    exact h.asked (by rw [askedBy, hparse])
      (ex.confining_refused (.tool (.declaredTool toolId question)) true _)

theorem confinement_after (trace : List (Sigma Answer)) (k : List String) :
    (confinement helpers allowed).after k trace = k ++ trace.filterMap responseOf := by
  induction trace generalizing k with
  | nil => simp
  | cons e _ ih =>
    rw [Monitor.after_cons, ih]
    show (k ++ (responseOf e).toList) ++ _ = _
    cases hr : responseOf e with
    | none | some => simp [hr]

theorem confinedTo_of_permitted {trace : List (Sigma Answer)}
    (hp : (confinement helpers allowed).Permitted [] trace) : ConfinedTo helpers allowed trace := by
  rintro before q a after rfl hloop hstream
  obtain ⟨-, hq, -⟩ := Monitor.permitted_append.mp hp
  rw [confinement_after] at hq
  obtain hq | ⟨request, hq⟩ | hq := hq
  · rw [hloop] at hq
    cases hq
  · exact absurd hq (hstream request)
  · exact hq

end run

/-! ## what a run asks of the spawn seam -/

/-- a tool that a run can spawn: the one found under its id, in a run at the top that has its role routed -/
def WorkerConfig.Spawns (config : WorkerConfig) (tool : ToolDefinition) : Prop :=
  config.subsessionDepth = 0 ∧ config.tools.find? (·.id = tool.id) = some tool ∧
    ∃ role internalTools instructions, tool.mechanism = .subagent role internalTools instructions ∧
      ∃ evidence, config.subsessionRouting[role]? = some evidence

/-- two spawn seams that a run cannot tell apart -/
def SameSpawns (config : WorkerConfig) (spawn spawn' : SubsessionParent → ToolDefinition →
    Option String → RoleRoutingEvidence →
    Calls Answer (Option (Except SubsessionError SubsessionOutcome))) : Prop :=
  ∀ parent tool, config.Spawns tool → ∀ question routed,
    spawn parent tool question routed = spawn' parent tool question routed

section spawn
variable {seams : Seams} {config : WorkerConfig}
  {spawn : SubsessionParent → ToolDefinition → Option String → RoleRoutingEvidence →
    Calls Answer (Option (Except SubsessionError SubsessionOutcome))}
  (hspawn : SameSpawns config spawn seams.spawn)
include hspawn

theorem dispatchSubagent_spawn (ex : Executor) (state : RunState) (toolId : String)
    (question : Option String) :
    dispatchSubagent { seams with spawn } config ex state toolId question =
      dispatchSubagent seams config ex state toolId question := by
  unfold dispatchSubagent
  split
  · rfl
  next hdepth =>
  cases hfind : config.tools.find? (·.id = toolId) with
  | none => rfl
  | some tool =>
    obtain rfl : tool.id = toolId := by simpa using find?_some hfind
    dsimp only
    split
    · rfl
    next hmechanism =>
      split
      · rfl
      next hrouting =>
        simp only [hspawn _ tool ⟨Nat.eq_zero_of_not_pos hdepth, hfind, _, _, _, hmechanism, _, hrouting⟩]

theorem declaredTool_spawn (a : Attempt) (toolId : String) (question : Option String) :
    declaredTool { seams with spawn } config a toolId question =
      declaredTool seams config a toolId question := by
  unfold declaredTool
  simp only [dispatchSubagent_spawn hspawn]

theorem turn_spawn (task : WorkerTask) (a : Attempt) :
    turn { seams with spawn } task config a = turn seams task config a := by
  unfold turn act
  simp only [declaredTool_spawn hspawn]
  rfl

theorem runAttempt_spawn (task : WorkerTask) (ex : Executor) (state : RunState)
    (replanNote replanSummary : Option String) :
    runAttempt { seams with spawn } task config ex state replanNote replanSummary =
      runAttempt seams task config ex state replanNote replanSummary := by
  have hturn : turn { seams with spawn } task config = turn seams task config := by
    funext a
    exact turn_spawn hspawn task a
  unfold runAttempt
  rw [hturn]

/-- A run depends on the spawn seam only through the spawns of its tools, and below the top not at
all. -/
theorem runWorkerWith_spawn (task : WorkerTask) (worktree : String) (bash : Mediator) :
    runWorkerWith { seams with spawn } task worktree bash config =
      runWorkerWith seams task worktree bash config := by
  have hround : attemptRound { seams with spawn } task config = attemptRound seams task config := by
    funext r
    unfold attemptRound
    rw [runAttempt_spawn hspawn]
  unfold runWorkerWith
  rw [hround]

end spawn

/-! ## the runs of sub-sessions -/

def allowlistOf (tool : ToolDefinition) : List InternalTool :=
  match tool.mechanism with
  | .subagent _ internalTools _ => internalTools
  | .command _ => []

section subsession
variable {seams : Seams} (hdeliver : seams.deliver = pendingDelivery) {σ : Type}
  (h : σ → (q : Query) → Answer q × σ) (s : σ)
include hdeliver

theorem runWorkerWith_confined {config : WorkerConfig} (hdepth : 0 < config.subsessionDepth)
    (task : WorkerTask) (worktree : String) (bash : Mediator) :
    ConfinedTo seams.helpers config.subsessionAllowedInternal
        ((runWorkerWith seams task worktree bash config).trace h s) ∧
      ∀ run, ((runWorkerWith seams task worktree bash config).run h s).1 = some (.ok run) →
        ∃ ex, Confined seams.helpers config.subsessionAllowedInternal
          (((runWorkerWith seams task worktree bash config).trace h s).filterMap responseOf) ex ∧
          RunOf run ex := by
  have acts : Acts (confinement seams.helpers config.subsessionAllowedInternal) seams config
      (Confined seams.helpers config.subsessionAllowedInternal)
      (Pending seams.helpers config.subsessionAllowedInternal) :=
    confined_acts rfl hdeliver hdepth
  have hkeeps := runWorkerWith_acts acts (k := []) task worktree bash
    fun root => ⟨hdepth, rfl, .nil, rfl, fun _ => rfl⟩
  have hexpected := Monitor.expected_of_forall
    (m := confinement seams.helpers config.subsessionAllowedInternal)
    (l := (runWorkerWith seams task worktree bash config).trace h s) (fun _ _ _ _ => trivial)
    (fun _ _ => trivial) []
  have hpost := hkeeps.run_expected hexpected
  rw [confinement_after] at hpost
  exact ⟨confinedTo_of_permitted (hkeeps.permitted hexpected), hpost⟩

theorem runSubsession_confined (parent : SubsessionParent) (tool : ToolDefinition)
    (question : Option String) (routed : RoleRoutingEvidence) :
    ConfinedTo seams.helpers (allowlistOf tool)
      ((runSubsession (runWorkerWith seams) parent tool question routed).trace h s) := by
  unfold runSubsession allowlistOf
  cases tool.mechanism with
  | command =>
    intro before _ _ _ ht
    cases before <;> cases ht
  | subagent role internalTools =>
    have hdepth : 0 < (childWorkerConfig parent tool role routed internalTools).subsessionDepth := by
      show 0 < min (parent.depth + 1) 255
      omega
    have hconfined := fun task bash =>
      (runWorkerWith_confined hdeliver h s hdepth task parent.worktreeRoot bash).1
    rw [trace_bind]
    generalize (Calls.run h (runWorkerWith seams _ _ _ _) s).1 = result
    -- what follows the run of the sub-session makes no call
    match result with
    | none =>
      rw [Calls.trace, append_nil]
      exact hconfined _ _
    | some (.error (.worktreeRoot reason)) =>
      rw [Calls.trace, append_nil]
      exact hconfined _ _
    | some (.ok run) =>
      rw [Calls.trace, append_nil]
      exact hconfined _ _

end subsession

/-- Whatever the model answers and whatever is configured, a run inside a sub-session makes no call
but to carry out a request whose tool is on its allowlist: it writes no file, runs no declared command
and delivers nothing.  It starts no sub-session of its own.  Every request leaves one receipt, a
refusal unless the tool is on the list. -/
theorem subsession_confined (seams : Seams) (hdeliver : seams.deliver = pendingDelivery)
    (task : WorkerTask) (worktree : String) (bash : Mediator) (config : WorkerConfig)
    (hdepth : 0 < config.subsessionDepth) {σ : Type} (h : σ → (q : Query) → Answer q × σ) (s : σ) :
    ConfinedTo seams.helpers config.subsessionAllowedInternal
        ((runWorkerWith seams task worktree bash config).trace h s) ∧
      (∀ run, ((runWorkerWith seams task worktree bash config).run h s).1 = some (.ok run) →
        List.Forall₂ (ReceiptFor config.subsessionAllowedInternal)
          (requests seams.helpers ((runWorkerWith seams task worktree bash config).trace h s))
          run.receipts ∧
        (.think ∉ config.subsessionAllowedInternal → run.reasoningEvents = []) ∧
        run.untrustedWrites = []) ∧
      (∀ spawn, runWorkerWith { seams with spawn } task worktree bash config =
        runWorkerWith seams task worktree bash config) ∧
      ∀ parent tool question routed, ConfinedTo seams.helpers (allowlistOf tool)
        ((runSubsession (runWorkerWith seams) parent tool question routed).trace h s) := by
  obtain ⟨hconfined, hruns⟩ := runWorkerWith_confined hdeliver h s hdepth task worktree bash
  have hnone : ∀ tool, ¬ config.Spawns tool := fun _ h => absurd h.1 (Nat.ne_of_gt hdepth)
  refine ⟨hconfined, ?_, fun spawn => ?_, runSubsession_confined hdeliver h s⟩
  swap
  · exact runWorkerWith_spawn (fun _ tool h => absurd h (hnone tool)) task worktree bash
  intro run hrun
  obtain ⟨ex, hex, hof⟩ := hruns run hrun
  refine ⟨?_, fun hnot => ?_, ?_⟩
  · rw [hof.receipts]
    exact hex.receipts
  · rw [hof.reasoningEvents]
    exact hex.records hnot
  · rw [hof.untrustedWrites]
    exact hex.writes

def intruder : Helpers :=
  { parseAction := fun text =>
      if text = "write" then .ok (.writeFile "a.rs" "x") else .ok (.finish "done" true)
    containsSecretShaped := fun _ => false
    systemPrompt := fun _ => ""
    taskPrompt := fun _ _ _ => ""
    forReplan := fun _ _ => none }

def intruded (n : Nat) : (q : Query) → Answer q × Nat
  | .canonicalRoot _ => (.ok "/w", n)
  | .now => (0, n)
  | .stream _ =>
    (.ok [some (.textDelta (if n = 0 then "write" else "finish")), some .completed], n + 1)
  | .recordCost _ => ((), n)
  | .sleep _ => ((), n)
  | .resolve _ _ => (.error .empty, n)
  | .metadata _ => (none, n)
  | .read _ => (.io, n)
  | .isDir _ => (false, n)
  | .searchFiles _ _ _ => ([], n)
  | .createParent _ => (true, n)
  | .write _ _ => (true, n)
  | .runBash _ _ => (.error .bash, n)
  | .runBashWithin _ _ _ => (none, n)
  | .progressFingerprint _ _ => (0, n)
  | .deliver _ => (.error "", n)

def readingConfig : WorkerConfig :=
  { WorkerConfig.new "p" "m" .bootstrapDefaults with
    subsessionDepth := 1, subsessionAllowedInternal := [.readFile] }

/-- the write is refused, with its receipt, and the run is completed -/
theorem subsession_confined_intruder :
    (0 < readingConfig.subsessionDepth ∧ (childSeams intruder).deliver = pendingDelivery) ∧
    ((runWorkerWith (childSeams intruder) ⟨"t", "t", ""⟩ "w" .readOnlyStub readingConfig).run
      intruded 0).1.map (fun r => r.toOption.map fun run => (run.status, run.receipts)) =
      some (some (.completed, [⟨1, "write_file", true, .refused, some "tool-not-allowed", none⟩])) ∧
    ConfinedTo intruder [.readFile]
      ((runWorkerWith (childSeams intruder) ⟨"t", "t", ""⟩ "w" .readOnlyStub readingConfig).trace
        intruded 0) := by
  refine ⟨⟨by decide, rfl⟩, by decide +kernel, ?_⟩
  exact (subsession_confined (childSeams intruder) rfl ⟨"t", "t", ""⟩ "w" .readOnlyStub readingConfig
    (by decide) intruded 0).1

end Worker

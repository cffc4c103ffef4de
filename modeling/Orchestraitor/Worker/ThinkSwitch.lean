import Orchestraitor.Worker.Action
import Orchestraitor.Worker.Confined

/-!
# The switch of the `think` tool

`think_enabled = false` takes the tool off the surface of a run: no thought of that run is accepted.
The config of a sub-session is made anew (`childWorkerConfig`), with the switch on: there a thought is
kept out only by the allowlist of the spawning tool.

`SubsessionsMeet` speaks of the sub-sessions of a run through an observer at its spawn seam, who breaks
the run off at the first sub-session he does not accept.  A run always returns (`runWorker_returns`), so a
run that is not broken off had only accepted ones.
-/

namespace Worker
open Base Base.Calls

/-! ## thoughts of an executor -/

/-- the policy lets no thought through -/
def ToolPolicy.Withheld (policy : ToolPolicy) : Prop :=
  policy.thinkEnabled = false ∨ 0 < policy.subsessionDepth ∧ .think ∉ policy.allowedInternal

def isThought (receipt : ToolReceipt) : Bool :=
  receipt.tool = "think" && receipt.outcome = .completed

/-- no thought was accepted -/
structure Executor.Thoughtless (ex : Executor) : Prop where
  records : ∀ record ∈ ex.reasoningRecords, record.accepted = false
  receipts : ∀ receipt ∈ ex.receipts, isThought receipt = false

/-- `ex'` is `ex` with one more receipt, which names another tool or is a refusal -/
structure Executor.Spoke (ex ex' : Executor) : Prop where
  receipt : ∃ receipt, ex'.receipts = ex.receipts ++ [receipt] ∧ isThought receipt = false
  policy : ex'.policy = ex.policy
  records : ex'.reasoningRecords = ex.reasoningRecords

namespace Executor
variable (ex : Executor)

theorem Thoughtless.spoke {ex ex' : Executor} (h : ex.Thoughtless) (hs : ex.Spoke ex') :
    ex'.Thoughtless := by
  obtain ⟨receipt, hreceipts, hthought⟩ := hs.receipt
  refine ⟨by rw [hs.records]; exact h.records, ?_⟩
  intro r hr
  rw [hreceipts, List.mem_append, List.mem_singleton] at hr
  obtain hr | rfl := hr
  · exact h.receipts r hr
  · exact hthought

theorem isThought_of_name {receipt : ToolReceipt} (h : receipt.tool ≠ "think") :
    isThought receipt = false := by simp [isThought, h]

theorem spoke_pushReceipt {tool : String} (htool : tool ≠ "think") (admitted : Bool)
    (outcome : ReceiptOutcome) (reason : Option String) (exitCode : Option Int) :
    ex.Spoke (ex.pushReceipt tool admitted outcome reason exitCode) :=
  ⟨⟨_, rfl, isThought_of_name htool⟩, rfl, rfl⟩

theorem spoke_refusal (tool : String) (admitted : Bool) (reason : String) :
    ex.Spoke (ex.refusal tool admitted reason).2 :=
  ⟨⟨_, rfl, by simp [isThought]⟩, rfl, rfl⟩

theorem Left.spoke {ex ex' : Executor} {tool : String} (h : Left tool ex ex')
    (htool : tool ≠ "think") : ex.Spoke ex' := by
  obtain ⟨receipt, hreceipts, hname⟩ := h.receipt
  have hrecords := h.records.resolve_left htool
  exact ⟨⟨receipt, hreceipts, isThought_of_name (hname ▸ htool)⟩, h.policy, hrecords⟩

theorem writeFile_spoke (path content : String) :
    (ex.writeFile path content).Within (fun _ => True) (ex.Spoke ·.2) := by
  unfold writeFile
  split
  · exact ex.spoke_refusal ..
  refine ⟨trivial, fun resolved => ?_⟩
  cases resolved with
  | error => exact ex.spoke_refusal ..
  | ok =>
    refine ⟨trivial, fun parentOk => ?_⟩
    dsimp only
    split
    · exact ex.spoke_refusal ..
    refine ⟨trivial, fun written => ?_⟩
    dsimp only
    split
    · exact ex.spoke_refusal ..
    · exact ⟨⟨_, rfl, by simp [isThought]⟩, rfl, rfl⟩

variable {toolId : String} {action : WorkerAction}

theorem declaredTurn_spoke (htool : toolId ≠ "think") (tool : Option ToolDefinition)
    (run : Except MediationError MediatedRun) :
    ex.Spoke (declaredTurn toolId tool (ex.bashTurn run)).2 := by
  have hrelabel : ∀ receipt : ToolReceipt, receipt.tool = "bash" →
      ex.Spoke (relabelLast { ex with receipts := ex.receipts ++ [receipt] } toolId) := by
    intro _ hbash
    unfold relabelLast
    simp only [List.getLast?_concat, hbash, List.dropLast_concat]
    exact ⟨⟨_, rfl, isThought_of_name htool⟩, rfl, rfl⟩
  cases run with
  | ok | error => exact hrelabel _ rfl

theorem declaredCommand_spoke (htool : toolId ≠ "think") (argv : List String) :
    (ex.declaredCommand toolId argv).Within (fun _ => True) (ex.Spoke ·.2) := by
  unfold declaredCommand
  dsimp only
  split
  · rw [within_bind]
    apply ((ex.runBashWithin_within _ _).weaken fun _ _ => trivial).mono
    intro run _
    cases run with
    | none => exact ex.spoke_refusal ..
    | some run => exact ex.declaredTurn_spoke htool _ run
  · rw [within_bind]
    apply ((ex.runBash_within _).weaken fun _ _ => trivial).mono
    intro run _
    exact ex.declaredTurn_spoke htool _ run

theorem dispatchDeclared_spoke (htool : toolId ≠ "think") :
    (ex.dispatchDeclared toolId).Within (fun _ => True) (ex.Spoke ·.2) := by
  unfold dispatchDeclared
  split
  · exact ex.spoke_refusal ..
  split
  · exact ex.spoke_refusal ..
  · exact ex.declaredCommand_spoke htool _
  · exact ex.spoke_refusal ..

theorem admitInternal_withheld (h : ex.policy.Withheld) (hthink : isThink action = true) :
    ex.admitInternal action = some (ex.admittedRefusal "think" "tool-not-allowed") := by
  cases action with
  | think =>
    unfold admitInternal
    split
    · rfl
    next hswitch =>
      have hon : ex.policy.thinkEnabled = true := by simpa [isThink] using hswitch
      obtain hoff | ⟨hdepth, hnot⟩ := h
      · rw [hon] at hoff
        cases hoff
      · have hne : ex.policy.subsessionDepth ≠ 0 := by omega
        rw [if_neg hne]
        dsimp only [internalActionOf]
        rw [if_neg hnot]
        rfl
  | _ => cases hthink

theorem admitInternal_spoke {r : ToolTurn × Executor} (h : ex.admitInternal action = some r) :
    ex.Spoke r.2 := by
  obtain ⟨tool, reason, rfl⟩ := admitInternal_refusal h
  exact ex.spoke_refusal ..

theorem dispatch_spoke (h : ex.policy.Withheld) (secretShaped : String → Bool)
    (hname : ∀ question, action ≠ .declaredTool "think" question) :
    (ex.dispatch secretShaped action).Within (fun _ => True) (ex.Spoke ·.2) := by
  unfold dispatch
  split
  next r hr => exact ex.admitInternal_spoke hr
  next hadmitted =>
    cases action with
    | readFile path =>
      exact ((ex.readFile_serves path).weaken fun _ _ => trivial).mono fun r hr =>
        hr.spoke (by decide)
    | writeFile path content => exact ex.writeFile_spoke path content
    | search pattern path =>
      exact ((ex.search_serves pattern path).weaken fun _ _ => trivial).mono fun r hr =>
        hr.spoke (by decide)
    | bash script =>
      exact ((ex.bashTool_serves script).weaken fun _ _ => trivial).mono fun r hr =>
        hr.spoke (by decide)
    | think =>
      rw [ex.admitInternal_withheld h rfl] at hadmitted
      cases hadmitted
    | declaredTool _ question =>
      apply ex.dispatchDeclared_spoke
      rintro rfl
      exact hname question rfl
    | finish => exact ex.spoke_refusal ..

end Executor

/-! ## thoughts of a run -/

def noThought (run : WorkerRun) : Bool :=
  run.reasoningEvents.all (!·.accepted) && run.receipts.all (!isThought ·)

theorem RunOf.noThought {run : WorkerRun} {ex : Executor} (h : RunOf run ex) (hex : ex.Thoughtless) :
    noThought run = true := by
  rw [Worker.noThought, Bool.and_eq_true, List.all_eq_true, List.all_eq_true, h.reasoningEvents,
    h.receipts]
  constructor
  · intro record hrecord
    rw [hex.records record hrecord]
    rfl
  · intro receipt hreceipt
    rw [hex.receipts receipt hreceipt]
    rfl

section run
variable {seams : Seams} {config : WorkerConfig}

def Silent (_ : Unit) (ex : Executor) : Prop := ex.policy.Withheld ∧ ex.Thoughtless

variable {ex : Executor} {k : Unit}

theorem Silent.spoke {ex' : Executor} (h : Silent k ex) (hs : ex.Spoke ex') : Silent k ex' := by
  refine ⟨?_, h.2.spoke hs⟩
  rw [hs.policy]
  exact h.1

theorem Silent.childWrites (h : Silent k ex) (paths : List String) :
    Silent k (paths.foldl Executor.recordChildWrite ex) := by
  induction paths generalizing ex with
  | nil => exact h
  | cons path _ ih =>
    have hwrite : Silent k (ex.recordChildWrite path) := ⟨h.1, h.2.records, h.2.receipts⟩
    exact ih hwrite

theorem dispatchSubagent_silent (h : Silent k ex) {toolId : String} (htool : toolId ≠ "think")
    (state : RunState) (question : Option String) :
    (dispatchSubagent seams config ex state toolId question).Keeps (.watch fun k _ _ => k)
      (fun r k' => ∀ v, r = some v → Silent k' v.2.1) k := by
  have hrefused : ∀ reason observation v,
      some (refuseSubagent ex state toolId reason observation) = some v → Silent k v.2.1 := by
    intro _ _ _ hv
    cases hv
    exact h.spoke (ex.spoke_pushReceipt htool ..)
  unfold dispatchSubagent
  split
  · exact hrefused _ _
  cases hfind : config.tools.find? (·.id = toolId) with
  | none => exact hrefused _ _
  | some tool =>
    have hid : tool.id = toolId := by simpa using List.find?_some hfind
    dsimp only
    split
    · exact hrefused _ _
    split
    · exact hrefused _ _
    refine ⟨trivial, fun t _ => ?_⟩
    rw [keeps_bind]
    refine (keeps_any (fun _ _ => trivial) _ _).mono fun r k' _ => ?_
    match r with
    | none =>
      intro v hv
      cases hv
    | some (.error error) => exact hrefused _ _
    | some (.ok outcome) =>
      intro v hv
      cases hv
      apply Silent.childWrites
      unfold Executor.recordSubagentCompletion
      rw [hid]
      split <;> exact h.spoke (ex.spoke_pushReceipt htool ..)

theorem silent_acts (hnames : ∀ text question,
      seams.helpers.parseAction text ≠ .ok (.declaredTool "think" question)) :
    Acts (.watch fun k _ _ => k) seams config Silent (fun k _ ex => Silent k ex) where
  loop := fun k q _ => ⟨trivial, fun _ => rfl⟩
  stream := fun _ _ => trivial
  silent := fun h _ _ => h
  response := fun h _ _ => h
  malformed := fun h _ => h
  unknown := fun h _ => h.spoke (Executor.spoke_refusal ..)
  gaveUp := fun h _ => h
  finish := fun h _ request => (keeps_any (fun _ _ => trivial) _ _).mono fun _ _ _ => h
  dispatch := by
    intro k text ex action h hparse _
    have hname : ∀ question, action ≠ .declaredTool "think" question := by
      rintro question rfl
      exact hnames text question hparse
    refine ((ex.dispatch_spoke h.1 _ hname).keeps fun _ _ => ⟨trivial, fun _ => rfl⟩).mono ?_
    rintro r k' ⟨hr, rfl⟩
    exact h.spoke hr
  subagent := by
    intro _ text _ _ question h hparse _
    apply dispatchSubagent_silent h
    rintro rfl
    exact hnames text question hparse

theorem runWorkerWith_noThought (hnames : ∀ text question,
      seams.helpers.parseAction text ≠ .ok (.declaredTool "think" question))
    (hoff : config.thinkEnabled = false ∨
      0 < config.subsessionDepth ∧ .think ∉ config.subsessionAllowedInternal)
    (task : WorkerTask) (worktree : String) (bash : Mediator) :
    (runWorkerWith seams task worktree bash config).Within (fun _ => True)
      (fun r => ∀ run, r = some (.ok run) → noThought run = true) := by
  have acts : Acts (.watch fun k _ _ => k) seams config Silent (fun k _ ex => Silent k ex) :=
    silent_acts hnames
  have hkeeps := runWorkerWith_acts acts (k := ()) task worktree bash fun root =>
    ⟨hoff, nofun, nofun⟩
  apply Keeps.within_of_watch
  apply hkeeps.mono
  intro _ _ hr run hrun
  obtain ⟨ex, hex, hof⟩ := hr run hrun
  exact hof.noThought hex.2

end run

/-! ## the sub-sessions of a run -/

def observed (helpers : Helpers) (ok : WorkerRun → Bool) (task : WorkerTask) (worktree : String)
    (bash : Mediator) (config : WorkerConfig) :
    Calls Answer (Option (Except WorkerError WorkerRun)) :=
  runWorkerWith (childSeams helpers) task worktree bash config >>= fun
  | some (.ok run) => .ret (if ok run then some (.ok run) else none)
  | r => .ret r

def runObserved (helpers : Helpers) (ok : WorkerRun → Bool) (task : WorkerTask) (worktree : String)
    (config : WorkerConfig) : Calls Answer (Option (Except WorkerError WorkerRun)) :=
  runWorkerWith { workerSeams helpers with spawn := runSubsession (observed helpers ok) } task worktree
    .given config

/-- `ok` accepts every sub-session of the run -/
def SubsessionsMeet (helpers : Helpers) (ok : WorkerRun → Bool) (task : WorkerTask)
    (worktree : String) (config : WorkerConfig) {σ : Type} (h : σ → (q : Query) → Answer q × σ)
    (s : σ) : Prop :=
  ((runObserved helpers ok task worktree config).run h s).1.isSome = true

section observed
variable {helpers : Helpers} {ok : WorkerRun → Bool} {config : WorkerConfig}

theorem runObserved_eq (hok : ∀ parent tool, config.Spawns tool → ∀ role routed task worktree bash,
      (runWorkerWith (childSeams helpers) task worktree bash
        (childWorkerConfig parent tool role routed (allowlistOf tool))).Within (fun _ => True)
        (fun r => ∀ run, r = some (.ok run) → ok run = true))
    (task : WorkerTask) (worktree : String) :
    runObserved helpers ok task worktree config = runWorker helpers task worktree config := by
  apply runWorkerWith_spawn
  intro parent tool htool question routed
  show runSubsession (observed helpers ok) parent tool question routed =
    runSubsession (runWorkerWith (childSeams helpers)) parent tool question routed
  have hbound := hok parent tool htool
  unfold runSubsession
  unfold allowlistOf at hbound
  cases hmech : tool.mechanism with
  | command => rfl
  | subagent role internalTools instructions =>
    rw [hmech] at hbound
    dsimp only at hbound ⊢
    congr 1
    -- the observer returns the run as it is
    have hsame := (hbound role routed { id := "tool." ++ tool.id, slug := "tool-" ++ tool.id
                                        description := childDescription instructions question }
      parent.worktreeRoot (if .bash ∈ internalTools then .subsession else .readOnlyStub)).bind_congr
      (f := fun r => match r with
        | some (.ok run) => .ret (if ok run then some (.ok run) else none)
        | r => .ret r) fun r hr => by
          match r with
          | none => rfl
          | some (.error e) => rfl
          | some (.ok run) =>
            dsimp only
            rw [hr run rfl]
            rfl
    rw [bind_ret] at hsame
    exact hsame

end observed

def Helpers.parsing (helpers : Helpers) (fromStr : String → Option Json) : Helpers :=
  { helpers with parseAction := Worker.parseAction fromStr }

theorem parsing_names (helpers : Helpers) (fromStr : String → Option Json) (text : String)
    (question : Option String) :
    (helpers.parsing fromStr).parseAction text ≠ .ok (.declaredTool "think" question) := by
  intro h
  have hreserved := (parseAction_declared h).2
  revert hreserved
  decide

/-- With the switch off no thought of a run is accepted, whatever the model answers; nor in any of its
sub-sessions, as long as no tool that the run can spawn has `think` on its allowlist. -/
theorem think_stays_off (helpers : Helpers) (fromStr : String → Option Json) (task : WorkerTask)
    (worktree : String) (config : WorkerConfig) (hoff : config.thinkEnabled = false)
    (htools : ∀ tool, config.Spawns tool → .think ∉ allowlistOf tool) {σ : Type}
    (h : σ → (q : Query) → Answer q × σ) (s : σ) :
    (∀ run, ((runWorker (helpers.parsing fromStr) task worktree config).run h s).1 =
      some (.ok run) → noThought run = true) ∧
    SubsessionsMeet (helpers.parsing fromStr) noThought task worktree config h s := by
  have hnames := parsing_names helpers fromStr
  constructor
  · intro run hrun
    have hwithin : (runWorker (helpers.parsing fromStr) task worktree config).Within _ _ :=
      runWorkerWith_noThought hnames (.inl hoff) task worktree .given
    have hkeeps := hwithin.keeps (m := .watch fun k _ _ => k) (k := ()) fun _ _ =>
      ⟨trivial, fun _ => rfl⟩
    exact (hkeeps.watch_run s).1 run hrun
  · have hsame : runObserved (helpers.parsing fromStr) noThought task worktree config =
        runWorker (helpers.parsing fromStr) task worktree config := by
      apply runObserved_eq
      intro parent tool htool _ _ _ _ _
      apply runWorkerWith_noThought hnames
      right
      refine ⟨?_, htools tool htool⟩
      show 0 < min (parent.depth + 1) 255
      omega
    obtain ⟨result, hresult⟩ := runWorker_returns (helpers.parsing fromStr) task worktree config h s
    rw [SubsessionsMeet, hsame, hresult]
    rfl

/-! ### a sub-session that thinks -/

def threeBlocks (block : String) : Option Json :=
  if block = "ask" then some (.object [("tool", .string "helper")])
  else if block = "think" then some (.object [("tool", .string "think"), ("thought", .string "so"),
    ("thought_number", .number (some 1)), ("total_thoughts", .number (some 1)),
    ("next_thought_needed", .bool false)])
  else some (.object [("tool", .string "finish"), ("summary", .string "done"), ("success", .bool true)])

def delegating : Nat → (q : Query) → Answer q × Nat
  | n, .stream _ => (.ok [some (.textDelta
      (if n = 0 then "```json ask```" else if n = 1 then "```json think```" else "```json done```")),
      some .completed], n + 1)
  | n, .deliver _ => (.ok (.prOpened "1"), n)
  | n, q => intruded n q

def switchedOff (internalTools : List InternalTool) : WorkerConfig :=
  { WorkerConfig.new "p" "m" .bootstrapDefaults with
    thinkEnabled := false
    tools := [{ id := "helper", mechanism := .subagent "aux" internalTools none
                budget := { maxTurns := 12, wallClockSecs := none, maxResultBytes := 100
                            structuredSummary := false }
                effort := none, maxSummaryBytes := none, structuredSummary := none }]
    subsessionRouting := (∅ : OrdMap String RoleRoutingEvidence).insert "aux"
      ⟨"aux", "p", "m", "default", none⟩ }

theorem think_stays_off_helper :
    ((switchedOff [.readFile]).thinkEnabled = false ∧
      ∀ tool, (switchedOff [.readFile]).Spawns tool → .think ∉ allowlistOf tool) ∧
    SubsessionsMeet (intruder.parsing threeBlocks) noThought ⟨"t", "t", ""⟩ "w"
      (switchedOff [.readFile]) delegating 0 := by
  have htools : ∀ tool, (switchedOff [.readFile]).Spawns tool → .think ∉ allowlistOf tool := by
    intro tool htool
    have hnone : ∀ tool ∈ (switchedOff [.readFile]).tools, .think ∉ allowlistOf tool := by decide
    exact hnone tool (List.mem_of_find?_eq_some htool.2.1)
  exact ⟨⟨rfl, htools⟩, (think_stays_off intruder threeBlocks ⟨"t", "t", ""⟩ "w" _ rfl htools
    delegating 0).2⟩

/-- the config of the sub-session does not take the switch over -/
theorem helper_thinks :
    (switchedOff [.think]).thinkEnabled = false ∧
    ¬ SubsessionsMeet (intruder.parsing threeBlocks) noThought ⟨"t", "t", ""⟩ "w"
      (switchedOff [.think]) delegating 0 := by
  refine ⟨rfl, ?_⟩
  unfold SubsessionsMeet
  decide +kernel

end Worker

import Orchestraitor.Campaign.LoopRun

/-!
# The books of a loop run

What the runner keeps about its rows and workers (`Ledger`), what its calls have shown (`Seen`: the
run store, the workers in flight, the rows inserted and moved to a terminal status), and the steps in
which the two change.  A step is what happens between two moments at which the store or the set of
workers can be seen to differ; the runner takes no other (`LoopWalk`).
-/

namespace Campaign
open Base List

/-! ## the store -/

namespace LoopRunStore

def retryStates (store : LoopRunStore) : List TaskRetryState :=
  store.retry.toList.map fun (taskId, columns) => { columns with taskId }

def outcome (store : LoopRunStore) (guardrails : GuardrailsSettings) (taskId : String)
    (status : RunRowStatus) (cls : String × Bool) (now : Nat) : LoopRunStore :=
  match status with
  | .completed => store.recordSuccess taskId
  | .failed | .stalled | .timedOut =>
    store.recordFailure taskId cls.1 cls.2 (LoopRunner.backoffUntil guardrails now)
  | _ => store

def exhausted (store : LoopRunStore) (guardrails : GuardrailsSettings) (taskId : String) : Bool :=
  0 < guardrails.maxTaskAttempts &&
    (store.retryState taskId).any (guardrails.maxTaskAttempts ≤ ·.attemptsTotal)

def finalStatus (store : LoopRunStore) (guardrails : GuardrailsSettings) (taskId : String)
    (status : RunRowStatus) : RunRowStatus :=
  match status with
  | .failed | .stalled | .timedOut =>
    if store.exhausted guardrails taskId then .stuck else status
  | _ => status

def settled (store : LoopRunStore) (guardrails : GuardrailsSettings) (run : Nat × String)
    (status : RunRowStatus) (cls : String × Bool) (now : Nat) (detail : String) : LoopRunStore :=
  let noted := store.outcome guardrails run.2 status cls now
  noted.updateRunning (·.id == run.1)
    (finishUpdate (noted.finalStatus guardrails run.2 status) now detail)

@[simp] theorem recordSuccess_rows (store : LoopRunStore) (taskId : String) :
    (store.recordSuccess taskId).rows = store.rows := by
  unfold recordSuccess
  split <;> rfl

@[simp] theorem outcome_rows (store : LoopRunStore) (guardrails : GuardrailsSettings)
    (taskId : String) (status : RunRowStatus) (cls : String × Bool) (now : Nat) :
    (store.outcome guardrails taskId status cls now).rows = store.rows := by
  cases status <;> first | rfl | exact recordSuccess_rows store taskId

theorem outcome_isRunning (store : LoopRunStore) (guardrails : GuardrailsSettings)
    (taskId : String) (status : RunRowStatus) (cls : String × Bool) (now id : Nat) :
    (store.outcome guardrails taskId status cls now).isRunning id = store.isRunning id := by
  rw [isRunning, isRunning, outcome_rows]

theorem updateRunning_map {β : Type} (f : RunRow → β) {u : RowUpdate}
    (hf : ∀ row, row.status = .running → f (u.set row) = f row) (store : LoopRunStore)
    (p : RunRow → Bool) : (store.updateRunning p u).rows.map f = store.rows.map f := by
  show map f (map _ store.rows) = _
  rw [map_map]
  refine map_congr_left fun row _ => ?_
  show f (if p row && row.status == .running then u.set row else row) = f row
  split_ifs with h
  · exact hf row (beq_iff_eq.mp (Bool.and_eq_true_iff.mp h).2)
  · rfl

def keys (store : LoopRunStore) : List (String × String) :=
  store.rows.map fun row => (row.invocationId, row.taskId)

theorem exec_keys {op : StoreOp} (h : ∀ request, op ≠ .insertRun request) (store : LoopRunStore) :
    (store.exec op).2.keys = store.keys := by
  cases op with
  | insertRun request => exact absurd rfl (h request)
  | byId | runsForInvocation | taskRetryState | allTaskRetryStates => rfl
  | recordTaskSuccess taskId => exact congrArg (map _) (recordSuccess_rows store taskId)
  | recordTaskFailure =>
    simp only [exec]
    split_ifs <;> rfl
  | heartbeat | finish | recoverRunningRows =>
    simp only [exec]
    split_ifs <;> first | rfl | exact updateRunning_map _ (fun _ _ => rfl) store _

theorem settled_keys (store : LoopRunStore) (guardrails : GuardrailsSettings) (run : Nat × String)
    (status : RunRowStatus) (cls : String × Bool) (now : Nat) (detail : String) :
    (store.settled guardrails run status cls now detail).keys = store.keys := by
  unfold settled keys
  rw [updateRunning_map _ (fun _ _ => rfl), outcome_rows]

theorem settled_rows (store : LoopRunStore) (guardrails : GuardrailsSettings) (run : Nat × String)
    (status : RunRowStatus) (cls : String × Bool) (now : Nat) (detail : String) :
    (store.settled guardrails run status cls now detail).rows =
      (store.updateRunning (·.id == run.1) (finishUpdate
        ((store.outcome guardrails run.2 status cls now).finalStatus guardrails run.2 status) now
        detail)).rows := by
  unfold settled updateRunning
  dsimp only
  rw [outcome_rows]

theorem exec_heartbeat (store : LoopRunStore) (runId beat nowSecs : Nat) :
    (store.exec (.heartbeat runId beat nowSecs)).2 = store ∨
      (store.exec (.heartbeat runId beat nowSecs)).2 =
        store.updateRunning (·.id == runId) (beatUpdate beat nowSecs) := by
  simp only [exec]
  split_ifs <;> first | exact .inl rfl | exact .inr rfl

variable {runId : Nat}

theorem exec_finish_ok {store : LoopRunStore} {nowSecs : Nat} {status : RunRowStatus}
    {detail : String} {v : Unit} (h : (store.exec (.finish runId status nowSecs detail)).1 = .ok v) :
    store.isRunning runId = true ∧ (store.exec (.finish runId status nowSecs detail)).2 =
      store.updateRunning (·.id == runId) (finishUpdate status nowSecs detail) := by
  simp only [exec] at h ⊢
  split_ifs at h ⊢ with h1 h2 h3
  exact ⟨h3, rfl⟩

theorem exec_finish {store : LoopRunStore} {nowSecs : Nat} {status : RunRowStatus} {detail : String}
    (hstatus : status.isTerminal = true) (hnow : nowSecs ≤ i64Max)
    (hrun : store.isRunning runId = true) : (store.exec (.finish runId status nowSecs detail)).2 =
      store.updateRunning (·.id == runId) (finishUpdate status nowSecs detail) := by
  simp [exec, hstatus, hnow, hrun]

theorem exec_recordTaskFailure_ok {store : LoopRunStore} {taskId cls : String} {noProgress : Bool}
    {backoff : Option Nat} {v : Unit}
    (h : (store.exec (.recordTaskFailure taskId cls noProgress backoff)).1 = .ok v) :
    (store.exec (.recordTaskFailure taskId cls noProgress backoff)).2 =
      store.recordFailure taskId cls noProgress backoff := by
  simp only [exec] at h ⊢
  split_ifs at h ⊢
  rfl

theorem exec_insertRun_ok {store : LoopRunStore} {request : StartRun} {v : Nat}
    (h : (store.exec (.insertRun request)).1 = .ok v) :
    (request.number ≤ i64Max ∧ request.startedAtSecs ≤ i64Max) ∧ v = store.nextId ∧
      (store.exec (.insertRun request)).2 = store.insert request := by
  simp only [exec] at h ⊢
  split_ifs at h ⊢ with h1
  exact ⟨h1, (Except.ok.inj h).symm, rfl⟩

theorem exec_insertRun {request : StartRun}
    (h : request.number ≤ i64Max ∧ request.startedAtSecs ≤ i64Max) (store : LoopRunStore) :
    (store.exec (.insertRun request)).2 = store.insert request := by
  rw [exec, if_pos h]

theorem exec_byId_ok {store : LoopRunStore} {row : RunRow}
    (h : (store.exec (.byId runId)).1 = .ok row) : row.id = runId := by
  simp only [exec] at h
  split at h
  next found hfound =>
    rw [← Except.ok.inj h]
    simpa using find?_some hfound
  next => cases h

end LoopRunStore

def Counters.terminal (c : Counters) : Nat :=
  c.completed + c.failed + c.stalled + c.timedOut + c.abortedOnStop + c.stuck

def RunRowStatus.endsRun : RunRowStatus → Bool
  | .completed | .failed | .stalled | .timedOut | .abortedShutdown => true
  | _ => false

theorem arbitrate_endsRun (outcome : JoinEnd) (intent : Option StopIntent) :
    (LoopRunner.arbitrate outcome intent).1.endsRun = true := by
  unfold LoopRunner.arbitrate
  split
  · split <;> rfl
  · rfl
  · split <;> rfl
  · rfl

variable {guardrails : GuardrailsSettings} {r : LoopRunner}

theorem Counters.note_terminal {store : LoopRunStore} {taskId : String} {status : RunRowStatus}
    (h : status.endsRun = true) (c : Counters) (event : LoopEvent) :
    (c.note ⟨event, store.finalStatus guardrails taskId status⟩).terminal = c.terminal + 1 := by
  unfold LoopRunStore.finalStatus Counters.note Counters.terminal
  cases status with
  | completed | abortedShutdown =>
    dsimp only
    omega
  | failed | stalled | timedOut =>
    split_ifs <;> (dsimp only; omega)
  | running | stuck | orphaned | paused => cases h

theorem finalStatus_isTerminal {store : LoopRunStore} {taskId : String} {status : RunRowStatus}
    (h : status.endsRun = true) :
    (store.finalStatus guardrails taskId status).isTerminal = true := by
  unfold LoopRunStore.finalStatus
  cases status with
  | completed | abortedShutdown => rfl
  | failed | stalled | timedOut =>
    dsimp only
    split <;> rfl
  | running | stuck | orphaned | paused => cases h

/-! ## what the calls have shown -/

/-- what an observer of the calls knows: the store, the workers that live, and the rows inserted and moved -/
structure Seen where
  store : LoopRunStore
  live : List Handle := []
  inserted : List Nat := []
  moved : List Nat := []
  elapsed : Nat := 0
  failed : Bool := false
  overflowed : Bool := false
  oddStart : Bool := false

namespace Seen

/-- a reading of the clock -/
def read (k : Seen) (r : LoopRunner) (elapsed : Nat) : Seen :=
  { k with elapsed, overflowed := k.overflowed || (r.nowSecs? elapsed).isNone }

/-- a call of the store that succeeded -/
def after (k : Seen) (op : StoreOp) : Seen :=
  { k with
    store := (k.store.exec op).2
    inserted := match op with
      | .insertRun _ => k.inserted ++ [k.store.nextId]
      | _ => k.inserted
    moved := match op with
      | .finish runId .. => k.moved ++ [runId]
      | _ => k.moved }

def answered (k : Seen) (op : StoreOp) : Except SqliteError op.Reply → Seen
  | .ok _ => k.after op
  | .error _ => { k with failed := true }

def launched (k : Seen) : Except CampaignError Handle → Seen
  | .ok process => { k with live := k.live ++ [process] }
  | .error (.spawn ..) => k
  | .error _ => { k with oddStart := true }

def joined (k : Seen) (process : Handle) : Seen := { k with live := k.live.erase process }

def next (r : LoopRunner) (k : Seen) : (q : Query) → Answer q → Seen
  | .now, a => k.read r a.reply
  | .store op, a => k.answered op a.reply
  | .start .., a => k.launched a.reply
  | .join process, _ => k.joined process
  | _, _ => k

/-- the first of the writes that end a run -/
def noted (k : Seen) (guardrails : GuardrailsSettings) (taskId : String) (status : RunRowStatus)
    (cls : String × Bool) (now : Nat) : Seen :=
  { k with store := k.store.outcome guardrails taskId status cls now }

/-- both writes that end a run -/
def settled (k : Seen) (guardrails : GuardrailsSettings) (run : Nat × String)
    (status : RunRowStatus) (cls : String × Bool) (now : Nat) (detail : String) : Seen :=
  { k with
    store := k.store.settled guardrails run status cls now detail
    moved := k.moved ++ [run.1] }

/-- what can be seen from outside -/
def shown (k : Seen) : List RunRow × List Handle × List Nat × List Nat :=
  (k.store.rows, k.live, k.inserted, k.moved)

end Seen

/-- the run store answers its calls, unless the database itself fails -/
def Served (k : Seen) : (q : Query) → Answer q → Prop
  | .store op, a => a.reply = (k.store.exec op).1 ∨ ∃ message, a.reply = .error (.failure message)
  | _, _ => True

/-- follows the calls of a run whose store answers, and of whose other answers the law holds -/
def books (r : LoopRunner) (law : Seen → (q : Query) → Answer q → Prop) : Calls.Monitor Answer Seen :=
  { permits := fun _ _ => True
    expects := fun k q a => Served k q a ∧ law k q a
    next := Seen.next r }

def serve (script : Nat → (q : Query) → Answer q) (t : LoopRunStore × Nat) :
    (q : Query) → Answer q × (LoopRunStore × Nat)
  | .store op =>
    (⟨(t.1.exec op).1, (script t.2 (.store op)).moment⟩, ((t.1.exec op).2, t.2 + 1))
  | q => (script t.2 q, (t.1, t.2 + 1))

theorem serve_expected {law : Seen → (q : Query) → Answer q → Prop}
    (script : Nat → (q : Query) → Answer q) (hlaw : ∀ k t q, law k q (serve script t q).1)
    {α : Type} (x : Calls Answer α) (k : Seen) (i : Nat) :
    (books r law).Expected k (x.trace (serve script) (k.store, i)) := by
  induction x generalizing k i with
  | ret => trivial
  | call q f ih =>
    cases q with
    | store op =>
      refine ⟨⟨.inl rfl, hlaw _ _ _⟩, ?_⟩
      show (books r law).Expected (k.answered op (k.store.exec op).1) _
      have hstore : (k.answered op (k.store.exec op).1).store = (k.store.exec op).2 := by
        cases h : (k.store.exec op).1 with
        | ok => rfl
        | error => exact (LoopRunStore.exec_error h).symm
      have := ih (serve script (k.store, i) (.store op)).1 (k.answered op (k.store.exec op).1) (i + 1)
      rwa [hstore] at this
    | start selected routing spend =>
      refine ⟨⟨trivial, hlaw _ _ _⟩, ?_⟩
      have hstore : ∀ reply, (k.launched reply).store = k.store := by
        intro _
        unfold Seen.launched
        split <;> rfl
      have := ih (serve script (k.store, i) (.start selected routing spend)).1
        (k.launched (script i (.start selected routing spend)).reply) (i + 1)
      rwa [hstore] at this
    | now | join => exact ⟨⟨trivial, hlaw _ _ _⟩, ih _ _ _⟩
    | _ => exact ⟨⟨trivial, hlaw _ _ _⟩, ih _ k (i + 1)⟩

/-! ## a small loop -/

def soloConfig : LoopConfig :=
  { budgets := { Worker.WorkerBudgets.bootstrapDefaults with
      stallTimeout := 4 * 1000000000, runBudget := 10 * 1000000000 }
    maxConcurrentWorkers := 1
    dailySpendSoftCapUsd := 10
    shutdownBudget := 5 * 1000000000
    maxCycles := none
    minPollInterval := none
    guardrails := { maxTaskAttempts := 0, taskRetryBackoff := 0, maxTurnsPerAttempt := none }
    kickoff := .builtinDefaults }

def soloRunner : LoopRunner :=
  { config := soloConfig
    routing := { role := "worker", provider := "p", model := "m", precedencePath := "default",
                 fallbackReason := none }
    invocationId := "run-1"
    startUnixSecs := 0
    taskSelector := none
    previousBudgetDay := none
    eventSource := false }

def soloSnapshot : BoardSnapshot :=
  { openItems := []
    ready := [{ number := 1, title := "t", url := "u", repo := "o/r", itemId := "I1" }]
    blockedCandidates := []
    warnings := [] }

def calm : (q : Query) → Reply q
  | .now | .borrowAndUpdate => 0
  | .store _ => .error (.failure "")
  | .dailySpend _ => .ok 0
  | .record _ => .ok 0
  | .isFinished _ => false
  | .join _ => .cancelled
  | .beat _ => none
  | .poll .. => .snapshot soloSnapshot
  | .hasChanged _ => some false
  | .pendingEvents => []
  | .consult _ => .error ""
  | .start .. => .ok 0
  | .tick .. => .elapsed
  | .abort _ | .yieldNow | .drainEvents _ | .sleep _ => ()

/-! ## the ledger -/

def Slot.key (slot : Slot) : Nat × String × Handle := (slot.runId, slot.taskId, slot.process)

def Slot.row (slot : Slot) : Nat × String := (slot.runId, slot.taskId)

def Note.isPass : Note → Bool
  | .pass .. => true
  | _ => false

/-- the part of the state that the books are about; `hand` are the runs taken from their slots and not
settled -/
structure Ledger where
  slots : List Slot
  previousReady : List String
  released : Bool
  counted : Nat
  passes : List Note
  pending : Nat
  hand : List (Nat × String)

def LoopState.ledger (s : LoopState) (pending : Nat) (hand : List (Nat × String)) : Ledger :=
  { slots := s.slots
    previousReady := s.previousReadyIds
    released := s.slotReleasedSincePass
    counted := s.counters.terminal
    passes := s.notes.filter (·.isPass)
    pending
    hand }

def LoopRunner.exclusions (r : LoopRunner) (slots : List Slot) (store : LoopRunStore) (now : Nat) :
    LoopRunner.TaskExclusions :=
  let own : LoopRunner.TaskExclusions :=
    { excluded := slots.map (·.taskId) ++
        (store.rows.filter (·.invocationId == r.invocationId)).map (·.taskId)
      budgetSkips := [] }
  if 0 < r.config.guardrails.maxTaskAttempts || r.config.guardrails.taskRetryBackoff ≠ 0 then
    store.retryStates.foldl (.scan r.config.guardrails now) own
  else own

theorem foldl_scan_excluded {now : Nat} {id : String} (states : List TaskRetryState)
    {x : LoopRunner.TaskExclusions} (h : id ∈ x.excluded) :
    id ∈ (states.foldl (.scan guardrails now) x).excluded := by
  induction states generalizing x with
  | nil => exact h
  | cons _ _ ih =>
    refine ih ?_
    unfold LoopRunner.TaskExclusions.scan
    split_ifs
    · exact h
    · exact mem_append_left _ h
    · exact mem_append_left _ h
    · exact h

theorem mem_exclusions {store : LoopRunStore} {id : String} (h : (r.invocationId, id) ∈ store.keys)
    (slots : List Slot) (now : Nat) : id ∈ (r.exclusions slots store now).excluded := by
  have hown : id ∈ slots.map (·.taskId) ++
      (store.rows.filter (·.invocationId == r.invocationId)).map (·.taskId) := by
    obtain ⟨row, hrow, heq⟩ := mem_map.mp h
    obtain ⟨hinv, rfl⟩ := Prod.mk.inj heq
    refine mem_append_right _ (mem_map_of_mem (mem_filter.mpr ⟨hrow, ?_⟩))
    simpa using hinv
  unfold LoopRunner.exclusions
  split_ifs
  · exact foldl_scan_excluded _ hown
  · exact hown

/-- the snapshot of a pass, and the time at which it looks -/
structure Look where
  snapshot : BoardSnapshot
  now : Nat

namespace Look
variable (look : Look) (r : LoopRunner) (l : Ledger) (k : Seen)

def excluded : List String := (r.exclusions l.slots k.store look.now).excluded

def fresh : List ReadyItem := LoopRunner.freshReady look.snapshot (look.excluded r l k)

def freshIds : List String := ((look.fresh r l k).map (·.taskId)).dedup

/-- the ledger after the pass has evaluated its snapshot -/
def passed (ended : PassEnd) : Ledger :=
  { l with
    previousReady := look.freshIds r l k
    released := false
    passes := l.passes ++
      [.pass (look.snapshot.ready.map (·.taskId)) (look.excluded r l k) ended] }

section
variable {look : Look} {r : LoopRunner} {l : Ledger} {k : Seen}

theorem mem_fresh {item : ReadyItem} : item ∈ look.fresh r l k ↔
    item ∈ look.snapshot.ready ∧ item.taskId ∉ look.excluded r l k := by
  simp [fresh, LoopRunner.freshReady]

theorem mem_freshIds {id : String} : id ∈ look.freshIds r l k ↔
    id ∈ look.snapshot.ready.map (·.taskId) ∧ id ∉ look.excluded r l k := by
  rw [freshIds, mem_dedup, mem_map]
  constructor
  · rintro ⟨item, hitem, rfl⟩
    obtain ⟨hready, hnot⟩ := mem_fresh.mp hitem
    exact ⟨mem_map_of_mem hready, hnot⟩
  · rintro ⟨hready, hnot⟩
    obtain ⟨item, hitem, rfl⟩ := mem_map.mp hready
    exact ⟨item, mem_fresh.mpr ⟨hitem, hnot⟩, rfl⟩

end

end Look

def LoopRunner.request (r : LoopRunner) (item : ReadyItem) (decisionId now : Nat) : StartRun :=
  { invocationId := r.invocationId
    decisionId
    taskId := item.taskId
    repo := item.repo
    number := item.number
    startedAtSecs := now }

/-- the loop and what is seen of its calls -/
abbrev World := Ledger × Seen

section
variable (r : LoopRunner) (law : Seen → (q : Query) → Answer q → Prop)

/-- one step of a round, as the slots and the store see it -/
inductive Step : World → World → Prop where
  | read {l : Ledger} {k : Seen} (a : Answer .now) (h : law k .now a) : Step (l, k) (l, k.read r a.reply)
  | mark {l : Ledger} {k : Seen} {slots : List Slot}
      (h : slots.map Slot.key = l.slots.map Slot.key) : Step (l, k) ({ l with slots }, k)
  | beat {l : Ledger} {k : Seen} (runId beat nowSecs : Nat) :
      Step (l, k) (l, k.after (.heartbeat runId beat nowSecs))
  | take {l : Ledger} {k : Seen} {before after : List Slot} {slot : Slot}
      (h : l.slots = before ++ slot :: after) :
      Step (l, k) ({ l with slots := before ++ after, hand := slot.row :: l.hand },
        k.joined slot.process)
  | settle {l : Ledger} {k : Seen} {run : Nat × String} {hand : List (Nat × String)}
      {status : RunRowStatus} {cls : String × Bool} {now : Nat} {detail : String}
      (hhand : l.hand = run :: hand) (hnow : r.nowSecs? k.elapsed = some now)
      (hrun : k.store.isRunning run.1 = true) (hends : status.endsRun = true) :
      Step (l, k) ({ l with hand, pending := l.pending + 1 },
        k.settled r.config.guardrails run status cls now detail)
  | count {l : Ledger} {k : Seen} {n : Nat} (h : l.pending = n + 1) :
      Step (l, k) ({ l with pending := n, counted := l.counted + 1, released := true }, k)
  | skip {l : Ledger} {k : Seen} (look : Look) {observation : KickoffObservation}
      (hslots : l.slots = []) (hpending : l.pending = 0) (hhand : l.hand = [])
      (hready : observation.readyIds = look.freshIds r l k)
      (hprevious : observation.previousReadyIds = l.previousReady)
      (hreleased : observation.slotReleased = l.released)
      (hskip : (evaluate r.config.kickoff observation).kickOff = false) :
      Step (l, k) (look.passed r l k .skipped, k)
  | idle {l : Ledger} {k : Seen} (look : Look) (hfresh : look.fresh r l k = []) :
      Step (l, k) (look.passed r l k .noOp, k)
  | insert {l : Ledger} {k : Seen} (look : Look) {item : ReadyItem} (decisionId : Nat)
      (hitem : item ∈ look.fresh r l k) (hnow : r.nowSecs? k.elapsed = some look.now)
      (hcap : l.slots.length < r.config.maxConcurrentWorkers) (hhand : l.hand = [])
      (hfits : item.number ≤ i64Max ∧ look.now ≤ i64Max) :
      Step (l, k) ({ look.passed r l k (.attempted item.taskId) with
          hand := [(k.store.nextId, item.taskId)] },
        k.after (.insertRun (r.request item decisionId look.now)))
  | launch {l : Ledger} {k : Seen} (slot : Slot) {hand : List (Nat × String)}
      (hhand : l.hand = slot.row :: hand) :
      Step (l, k) ({ l with hand, slots := l.slots ++ [slot] },
        { k with live := k.live ++ [slot.process] })
  | odd {l : Ledger} {k : Seen} : Step (l, k) (l, { k with oddStart := true })
  | refuse {l : Ledger} {k : Seen} {run : Nat × String} {hand : List (Nat × String)}
      (cls : String × Bool) {now : Nat} (detail : String)
      (hhand : l.hand = run :: hand) (hnow : r.nowSecs? k.elapsed = some now)
      (hrun : k.store.isRunning run.1 = true) :
      Step (l, k) ({ l with hand, counted := l.counted + 1, previousReady := [run.2] },
        k.settled r.config.guardrails run .failed cls now detail)
  | sweep {l : Ledger} {k : Seen} {run : Nat × String} {hand : List (Nat × String)} {stamp : Nat}
      (hhand : l.hand = run :: hand) (hrun : k.store.isRunning run.1 = true)
      (hfits : stamp ≤ i64Max) :
      Step (l, k) ({ l with hand, counted := l.counted + 1, released := true },
        k.after (.finish run.1 .abortedShutdown stamp "unattributed-drain-abort"))

/-- any number of steps -/
abbrev Reach : World → World → Prop := Relation.ReflTransGen (Step r law)

end

theorem Reach.invariant {law : Seen → (q : Query) → Answer q → Prop} {I : World → Prop}
    (hstep : ∀ w w', Step r law w w' → I w → I w') {w w' : World} (h : Reach r law w w') (hw : I w) :
    I w' := by
  induction h with
  | refl => exact hw
  | tail _ hs ih => exact hstep _ _ hs ih

end Campaign

import Orchestraitor.Base.Ordered

/-!
# The loop run-state store

`LoopRunStore` over one SQLite file: a row per worker run, and per task the retry state that outlives
an invocation.  A row id is one more than the largest one in use, so the rows stand in the order of
their ids; the retry state is keyed by the task.  Integers are stored as `i64`; a value that does not
fit is refused before anything is written.

`spend_usd` is left out: only `daily_spend` reads it, and its answer is left to the environment.
-/

namespace Campaign
open Base

def i64Max : Nat := 9223372036854775807

inductive RunRowStatus where
  | running | completed | failed | stalled | timedOut | abortedShutdown | stuck | orphaned | paused
  deriving DecidableEq

def RunRowStatus.isTerminal : RunRowStatus → Bool
  | .running | .paused => false
  | _ => true

structure RunRow where
  id : Nat
  invocationId : String
  decisionId : Nat
  taskId : String
  repo : String
  number : Nat
  status : RunRowStatus
  startedAtSecs : Nat
  heartbeatTurn : Nat
  heartbeatAtSecs : Nat
  finishedAtSecs : Option Nat
  detail : String
  deriving DecidableEq

structure RetryColumns where
  attemptsTotal : Nat
  lastFailureClass : Option String
  consecutiveNoProgress : Nat
  backoffUntilSecs : Option Nat

structure TaskRetryState extends RetryColumns where
  taskId : String

structure StartRun where
  invocationId : String
  decisionId : Nat
  taskId : String
  repo : String
  number : Nat
  startedAtSecs : Nat

inductive SqliteError where
  | queryReturnedNoRows
  | conversion
  | notTerminal
  | failure (message : String)
  deriving DecidableEq

structure LoopRunStore where
  rows : List RunRow
  retry : OrdMap String RetryColumns
  ids_sorted : rows.Pairwise (·.id < ·.id)

namespace LoopRunStore

def empty : LoopRunStore := { rows := [], retry := ∅, ids_sorted := .nil }

/-! ## rows -/

variable (s : LoopRunStore)

def nextId : Nat := (s.rows.getLast?.map (·.id)).getD 0 + 1

theorem id_lt_nextId {s : LoopRunStore} {row : RunRow} (h : row ∈ s.rows) : row.id < s.nextId := by
  obtain ⟨l, last, hl⟩ := List.eq_nil_or_concat s.rows |>.resolve_left (List.ne_nil_of_mem h)
  have hsorted := s.ids_sorted
  rw [nextId, hl, List.concat_eq_append, List.getLast?_concat, Option.map_some, Option.getD_some]
  rw [hl, List.concat_eq_append] at h hsorted
  obtain hr | hr := List.mem_append.mp h
  · have := (List.pairwise_append.mp hsorted).2.2 row hr last List.mem_cons_self
    omega
  · rw [List.mem_singleton.mp hr]
    exact Nat.lt_succ_self _

def newRow (request : StartRun) : RunRow :=
  { id := s.nextId
    invocationId := request.invocationId
    decisionId := request.decisionId
    taskId := request.taskId
    repo := request.repo
    number := request.number
    status := .running
    startedAtSecs := request.startedAtSecs
    heartbeatTurn := 0
    heartbeatAtSecs := request.startedAtSecs
    finishedAtSecs := none
    detail := "" }

def insert (request : StartRun) : LoopRunStore :=
  { s with
    rows := s.rows ++ [s.newRow request]
    ids_sorted := by
      refine List.pairwise_append.mpr ⟨s.ids_sorted, List.pairwise_singleton _ _, ?_⟩
      intro _ hrow _ hnew
      rw [List.mem_singleton.mp hnew]
      exact id_lt_nextId hrow }

structure RowUpdate where
  set : RunRow → RunRow
  id_eq : ∀ row, (set row).id = row.id

def beatUpdate (beat nowSecs : Nat) : RowUpdate :=
  ⟨fun row => { row with heartbeatTurn := beat, heartbeatAtSecs := nowSecs }, fun _ => rfl⟩

def finishUpdate (status : RunRowStatus) (nowSecs : Nat) (detail : String) : RowUpdate :=
  ⟨fun row => { row with status, finishedAtSecs := some nowSecs, detail }, fun _ => rfl⟩

def updateRunning (p : RunRow → Bool) (u : RowUpdate) : LoopRunStore :=
  { s with
    rows := s.rows.map fun row => if p row && row.status == .running then u.set row else row
    ids_sorted := by
      have hid : ∀ row, (if p row && row.status == .running then u.set row else row).id = row.id := by
        intro row
        split
        · exact u.id_eq row
        · rfl
      simpa only [List.pairwise_map, hid] using s.ids_sorted }

def isRunning (id : Nat) : Bool :=
  s.rows.any fun row => row.id == id && row.status == .running

/-! ## retry state -/

def retryState (taskId : String) : Option TaskRetryState :=
  s.retry[taskId]?.map fun columns => { columns with taskId }

def failedOnce (failureClass : String) (noProgress : Bool) (backoffUntilSecs : Option Nat) :
    Option RetryColumns → RetryColumns
  | none =>
    { attemptsTotal := 1
      lastFailureClass := some failureClass
      consecutiveNoProgress := if noProgress then 1 else 0
      backoffUntilSecs }
  | some old =>
    { attemptsTotal := old.attemptsTotal + 1
      lastFailureClass := some failureClass
      consecutiveNoProgress := if noProgress then old.consecutiveNoProgress + 1 else 0
      backoffUntilSecs }

def recordFailure (taskId failureClass : String) (noProgress : Bool) (backoffUntilSecs : Option Nat) :
    LoopRunStore :=
  { s with
    retry := s.retry.insert taskId
      (failedOnce failureClass noProgress backoffUntilSecs s.retry[taskId]?) }

def cleared (columns : RetryColumns) : RetryColumns :=
  { columns with consecutiveNoProgress := 0, backoffUntilSecs := none }

def recordSuccess (taskId : String) : LoopRunStore :=
  match s.retry[taskId]? with
  | none => s
  | some old => { s with retry := s.retry.insert taskId (cleared old) }

end LoopRunStore

/-! ## calls -/

inductive StoreOp where
  | insertRun (request : StartRun)
  | byId (runId : Nat)
  | heartbeat (runId beat nowSecs : Nat)
  | finish (runId : Nat) (status : RunRowStatus) (nowSecs : Nat) (detail : String)
  | runsForInvocation (invocationId : String)
  | taskRetryState (taskId : String)
  | recordTaskFailure (taskId failureClass : String) (noProgress : Bool)
      (backoffUntilSecs : Option Nat)
  | recordTaskSuccess (taskId : String)
  | allTaskRetryStates
  | recoverRunningRows (nowSecs : Nat)

@[reducible] def StoreOp.Reply : StoreOp → Type
  | .insertRun _ => Nat
  | .byId _ => RunRow
  | .runsForInvocation _ => List RunRow
  | .taskRetryState _ => Option TaskRetryState
  | .allTaskRetryStates => List TaskRetryState
  | .recoverRunningRows _ => List RunRow
  | .heartbeat .. | .finish .. | .recordTaskFailure .. | .recordTaskSuccess _ => Unit

def LoopRunStore.exec (s : LoopRunStore) : (op : StoreOp) → Except SqliteError op.Reply × LoopRunStore
  | .insertRun request =>
    if request.number ≤ i64Max ∧ request.startedAtSecs ≤ i64Max then (.ok s.nextId, s.insert request)
    else (.error .conversion, s)
  | .byId runId => (match s.rows.find? (·.id == runId) with
    | some row => .ok row
    | none => .error .queryReturnedNoRows, s)
  | .heartbeat runId beat nowSecs =>
    if ¬ (beat ≤ i64Max ∧ nowSecs ≤ i64Max) then (.error .conversion, s)
    else if s.isRunning runId then
      (.ok (), s.updateRunning (·.id == runId) (beatUpdate beat nowSecs))
    else (.error .queryReturnedNoRows, s)
  | .finish runId status nowSecs detail =>
    if !status.isTerminal then (.error .notTerminal, s)
    else if ¬ nowSecs ≤ i64Max then (.error .conversion, s)
    else if s.isRunning runId then
      (.ok (), s.updateRunning (·.id == runId) (finishUpdate status nowSecs detail))
    else (.error .queryReturnedNoRows, s)
  | .runsForInvocation invocationId => (.ok (s.rows.filter (·.invocationId == invocationId)), s)
  | .taskRetryState taskId => (.ok (s.retryState taskId), s)
  | .recordTaskFailure taskId failureClass noProgress backoffUntilSecs =>
    if backoffUntilSecs.all (· ≤ i64Max) then
      (.ok (), s.recordFailure taskId failureClass noProgress backoffUntilSecs)
    else (.error .conversion, s)
  | .recordTaskSuccess taskId => (.ok (), s.recordSuccess taskId)
  | .allTaskRetryStates => (.ok (s.retry.toList.map fun (taskId, columns) => { columns with taskId }), s)
  | .recoverRunningRows nowSecs =>
    let stranded := s.rows.filter (·.status == .running)
    if ¬ (stranded = [] ∨ nowSecs ≤ i64Max) then (.error .conversion, s)
    else
      let u := finishUpdate .orphaned nowSecs
        "restart-recovery: supervisor did not reach a terminal status"
      (.ok (stranded.map u.set), s.updateRunning (fun _ => true) u)

namespace LoopRunStore

theorem exec_error {s : LoopRunStore} {op : StoreOp} {e : SqliteError}
    (h : (s.exec op).1 = .error e) : (s.exec op).2 = s := by
  cases op with
  | byId | runsForInvocation | taskRetryState | allTaskRetryStates => rfl
  | recordTaskSuccess => cases h
  | insertRun | heartbeat | finish | recordTaskFailure | recoverRunningRows =>
    simp only [exec] at h ⊢
    split_ifs at h ⊢ <;> rfl

end LoopRunStore

end Campaign

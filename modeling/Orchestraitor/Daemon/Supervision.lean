import Orchestraitor.Base.Ordered

/-!
# Workers and the tools of their projects (`supervision.rs`)

The supervisor keeps one entry for each session: a worker that is spawned under a session id that was used
before takes the place of the earlier one, whose process runs until its monitor sees that the sender of the
entry is dropped and kills it.  So a session stands for one project exactly if it was never spawned for two
(`tool_access_isolated_iff`).
-/

namespace Daemon
open Base Std List

inductive SupervisionError where
  | spawnWorker (message : String)
  | workerNotFound (session : String)
  | crossProjectAccess (boundProject requestedProject tool : String)
  | toolNotRegistered (tool project : String)
  deriving DecidableEq

structure WorkerSpec where
  sessionId : String
  project : String

structure WorkerEntry where
  project : String
  cancel : Bool := false

structure Supervisor where
  workers : OrdMap String WorkerEntry := ∅
  projectTools : OrdMap String (OrdSet String) := ∅

namespace Supervisor
variable (s : Supervisor)

def spawnWorker (spec : WorkerSpec) : Except String Unit → Except SupervisionError String × Supervisor
  | .error message => (.error (.spawnWorker message), s)
  | .ok () => (.ok spec.sessionId,
      { s with workers := s.workers.insert spec.sessionId { project := spec.project } })

def toolsOf (project : String) : OrdSet String := s.projectTools[project]?.getD ∅

def registerProjectTools (project : String) (tools : List String) : Supervisor :=
  { s with projectTools := s.projectTools.insert project ((s.toolsOf project).insertMany tools) }

def checkToolAccess (session tool requestedProject : String) : Except SupervisionError Unit :=
  match s.workers[session]? with
  | none => .error (.workerNotFound session)
  | some entry =>
    if entry.project ≠ requestedProject then
      .error (.crossProjectAccess entry.project requestedProject tool)
    else if (s.toolsOf entry.project).contains tool then .ok ()
    else .error (.toolNotRegistered tool entry.project)

def workerProject (session : String) : Option String := s.workers[session]?.map (·.project)

def shutdownWorker (session : String) : Except SupervisionError Unit × Supervisor :=
  match s.workers[session]? with
  | none => (.error (.workerNotFound session), s)
  | some entry =>
    (.ok (), { s with workers := s.workers.insert session { entry with cancel := true } })

def shutdownAll : Supervisor :=
  { s with workers := s.workers.map fun _ entry => { entry with cancel := true } }

/-! ## runs -/

inductive Call where
  | spawnWorker (spec : WorkerSpec) (child : Except String Unit)
  | registerProjectTools (project : String) (tools : List String)
  | checkToolAccess (session tool requestedProject : String)
  | shutdownWorker (session : String)
  | shutdownAll

def step : Call → Supervisor
  | .spawnWorker spec child => (s.spawnWorker spec child).2
  | .registerProjectTools project tools => s.registerProjectTools project tools
  | .checkToolAccess .. => s
  | .shutdownWorker session => (s.shutdownWorker session).2
  | .shutdownAll => s.shutdownAll

def run (calls : List Call) : Supervisor := calls.foldl step {}

def Call.binding : Call → Option (String × String)
  | .spawnWorker spec (.ok ()) => some (spec.sessionId, spec.project)
  | _ => none

def bindings (calls : List Call) : List (String × String) := calls.filterMap Call.binding

variable {s} {session tool project : String} {calls : List Call}

theorem step_workerProject (c : Call) (session : String) : (s.step c).workerProject session =
    (c.binding.toList.lookup session).or (s.workerProject session) := by
  cases c with
  | spawnWorker spec child =>
    cases child with
    | error => rfl
    | ok =>
      by_cases h : session = spec.sessionId
      · simp [step, spawnWorker, workerProject, Call.binding, h]
      · simp [step, spawnWorker, workerProject, Call.binding, h, beq_false_of_ne h]
  | registerProjectTools | checkToolAccess => rfl
  | shutdownWorker session' =>
    show (s.shutdownWorker session').2.workerProject session = s.workerProject session
    unfold shutdownWorker
    split
    · rfl
    next entry hentry =>
      by_cases h : session = session'
      · simp [workerProject, h, hentry]
      · simp [workerProject, h]
  | shutdownAll => simp [step, shutdownAll, workerProject, Call.binding, Function.comp_def]

theorem workerProject_run (calls : List Call) :
    (run calls).workerProject session = (bindings calls).reverse.lookup session := by
  induction calls using reverseRecOn with
  | nil => simp [run, bindings, workerProject]
  | append_singleton calls c ih =>
    have hstep : run (calls ++ [c]) = (run calls).step c := by simp [run]
    have hlast : bindings (calls ++ [c]) = bindings calls ++ c.binding.toList := by
      cases h : c.binding <;> simp [bindings, h]
    rw [hstep, step_workerProject, ih, hlast, reverse_append]
    cases c.binding with
    | none => rfl
    | some b =>
      obtain ⟨session', p⟩ := b
      by_cases h : session = session'
      · simp [h]
      · simp [lookup_cons, beq_false_of_ne h]

theorem step_toolsOf (c : Call) : tool ∈ (s.step c).toolsOf project ↔
    tool ∈ s.toolsOf project ∨ ∃ tools, c = .registerProjectTools project tools ∧ tool ∈ tools := by
  cases c with
  | registerProjectTools project' =>
    by_cases h : project = project'
    · simp [step, registerProjectTools, toolsOf, h]
    · simp [step, registerProjectTools, toolsOf, h, Ne.symm h]
  | spawnWorker _ child => cases child <;> simp [step, spawnWorker, toolsOf]
  | checkToolAccess => simp [step]
  | shutdownWorker =>
    simp only [step, shutdownWorker, reduceCtorEq, false_and, exists_false, or_false]
    split <;> rfl
  | shutdownAll => simp [step, shutdownAll, toolsOf]

theorem mem_toolsOf_run (calls : List Call) : tool ∈ (run calls).toolsOf project ↔
    ∃ tools, .registerProjectTools project tools ∈ calls ∧ tool ∈ tools := by
  induction calls using reverseRecOn with
  | nil => simp [run, toolsOf]
  | append_singleton calls c ih =>
    have hstep : run (calls ++ [c]) = (run calls).step c := by simp [run]
    rw [hstep, step_toolsOf, ih]
    simp only [mem_append, mem_singleton, or_and_right, exists_or, eq_comm]

theorem checkToolAccess_ok (h : s.checkToolAccess session tool project = .ok ()) :
    s.workerProject session = some project ∧ tool ∈ s.toolsOf project := by
  unfold checkToolAccess at h
  split at h
  · cases h
  next entry hentry =>
    split_ifs at h with hproject htool
    obtain rfl := not_not.mp hproject
    exact ⟨by rw [workerProject, hentry]; rfl, ExtTreeSet.contains_iff_mem.mp htool⟩

/-- At every point of a run each session is bound to the project of all its workers, and lets through only
the tools of that project, exactly if no session is spawned for two projects. -/
theorem tool_access_isolated_iff (calls : List Call) : (∀ l, l <+: calls →
      (∀ session p, (session, p) ∈ bindings l → (run l).workerProject session = some p) ∧
      ∀ session tool project, (run l).checkToolAccess session tool project = .ok () →
        (∃ tools, .registerProjectTools project tools ∈ l ∧ tool ∈ tools) ∧
          ∀ p, (session, p) ∈ bindings l → p = project) ↔
    ∀ session p q, (session, p) ∈ bindings calls → (session, q) ∈ bindings calls → p = q := by
  constructor
  · intro h session p q hp hq
    obtain ⟨hbound, -⟩ := h calls prefix_rfl
    exact Option.some.inj ((hbound session p hp).symm.trans (hbound session q hq))
  · intro h l hl
    have hbound : ∀ session p, (session, p) ∈ bindings l → (run l).workerProject session = some p := by
      intro session p hp
      rw [workerProject_run]
      cases hq : (bindings l).reverse.lookup session with
      | none => simpa using lookup_eq_none_iff.mp hq _ (mem_reverse.mpr hp)
      | some q =>
        obtain ⟨l1, l2, hsplit, -⟩ := lookup_eq_some_iff.mp hq
        have hmem : (session, q) ∈ bindings l := mem_reverse.mp (by simp [hsplit])
        have hsub : bindings l ⊆ bindings calls := (hl.sublist.filterMap _).subset
        rw [h session p q (hsub hp) (hsub hmem)]
    refine ⟨hbound, fun session tool project hok => ?_⟩
    obtain ⟨hproject, htool⟩ := checkToolAccess_ok hok
    refine ⟨(mem_toolsOf_run l).mp htool, fun p hp => ?_⟩
    exact Option.some.inj ((hbound session p hp).symm.trans hproject)

def respawned : List Call :=
  [.registerProjectTools "b" ["fs.read"], .spawnWorker ⟨"s", "a"⟩ (.ok ()), .spawnWorker ⟨"s", "b"⟩ (.ok ())]

theorem respawn_rebinds : ("s", "a") ∈ bindings respawned ∧
    (run respawned).workerProject "s" = some "b" ∧
    (run respawned).checkToolAccess "s" "fs.read" "b" = .ok () := by decide +kernel

end Supervisor
end Daemon

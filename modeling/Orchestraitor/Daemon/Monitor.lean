import Mathlib.Data.List.Range
import Mathlib.Tactic.Common
import Orchestraitor.Base.Prim

/-!
# The monitor of a supervised process (`supervision/monitor.rs`)

`monitor_process` waits for its child to exit or for a cancellation, and restarts the child up to
`max_restarts` times.  The supervisor may cancel at any moment, also between the check of the flag and the
spawn of a restart: so a cancellation does not rule out one more process, which the next wait then kills.

* A process is a number, in the order of the spawns; `pid` is what the system calls it.
* `cancel_rx.changed` returns once the flag was sent, or once the sender is gone.
* A `wait` or a `kill` may fail; the process is then `lost`: it may run on, also beside the next one.  That
  `kill_on_drop` kills it with its handle is not counted on.
* Left out: the events that repeat the statuses.
-/

namespace Daemon
open Base List

inductive ProcessStatus where
  | running (pid : Nat)
  | exited (code : Option Int)
  | restarting (attempt : Nat)
  | failed
  deriving DecidableEq

inductive MonitorPhase where
  | waiting
  /-- past the check of the flag, before the spawn -/
  | restarting
  | ended
  deriving DecidableEq

/-- the task of one supervised process, with every process it has spawned that may still run -/
structure ProcessMonitor where
  phase : MonitorPhase := .waiting
  restarts : Nat := 0
  child : Nat := 0
  spawned : Nat := 1
  alive : List Nat := [0]
  lost : List Nat := []
  statuses : List ProcessStatus
  cancelled : Bool := false
  senderGone : Bool := false

namespace ProcessMonitor

def start (pid : Nat) : ProcessMonitor := { statuses := [.running pid] }

/-- what the supervisor, the child and the system do -/
inductive Event where
  | cancel
  | dropSender
  /-- `wait` returned: `none` when it failed, else the status's code -/
  | exit (result : Option (Option Int))
  | changed (killed : Bool)
  | respawn (answer : Option Nat)

variable (m : ProcessMonitor)

def publish (status : ProcessStatus) : ProcessMonitor := { m with statuses := m.statuses ++ [status] }

/-- the child is taken for gone -/
def reap (gone : Bool) (code : Option Int) : ProcessMonitor :=
  (if gone then { m with alive := m.alive.erase m.child }
    else { m with lost := m.child :: m.lost }).publish (.exited code)

/-- `restarts` is a `u32` -/
def afterExit (maxRestarts : Nat) : ProcessMonitor :=
  if m.cancelled then { m with phase := .ended }
  else
    let restarts := (m.restarts + 1) % (u32Max + 1)
    if maxRestarts < restarts then { m.publish .failed with restarts, phase := .ended }
    else { m.publish (.restarting restarts) with restarts, phase := .restarting }

/-- `none` when the spawn fails -/
def respawn : Option Nat → ProcessMonitor
  | none => { m.publish .failed with phase := .ended }
  | some pid =>
    { m.publish (.running pid) with
      child := m.spawned, spawned := m.spawned + 1, alive := m.spawned :: m.alive, phase := .waiting }

def step (maxRestarts : Nat) (m : ProcessMonitor) : Event → ProcessMonitor
  | .cancel => if m.senderGone then m else { m with cancelled := true }
  | .dropSender => { m with senderGone := true }
  | .exit result =>
    if m.phase = .waiting then (m.reap result.isSome result.join).afterExit maxRestarts else m
  | .changed killed =>
    if m.phase = .waiting ∧ (m.cancelled ∨ m.senderGone) then { m.reap killed none with phase := .ended }
    else m
  | .respawn answer => if m.phase = .restarting then m.respawn answer else m

def run (maxRestarts : Nat) (m : ProcessMonitor) (events : List Event) : ProcessMonitor :=
  events.foldl (step maxRestarts) m

/-! ## every run -/

def attempt? : ProcessStatus → Option Nat
  | .restarting attempt => some attempt
  | _ => none

/-- one process at most but for those lost, within the budget of restarts -/
structure Sound (maxRestarts : Nat) (m : ProcessMonitor) : Prop where
  spawned : m.spawned ≤ maxRestarts + 1
  attempts : m.statuses.filterMap attempt? = range' 1 (min m.restarts maxRestarts)
  waiting : m.phase = .waiting → m.alive = m.child :: m.lost ∧ m.spawned = m.restarts + 1 ∧
    ∃ pid, m.statuses.getLast? = some (.running pid)
  restarting : m.phase = .restarting → m.alive = m.lost ∧ m.spawned = m.restarts ∧
    m.restarts ≤ maxRestarts ∧ m.statuses.getLast? = some (.restarting m.restarts)
  ended : m.phase = .ended → m.alive = m.lost ∧
    (m.statuses.getLast? = some .failed ∧ m.spawned = m.restarts ∨
      (∃ code, m.statuses.getLast? = some (.exited code)) ∧ m.spawned = m.restarts + 1)

/-- the child has exited, and nothing was done about it yet -/
structure Reaped (maxRestarts : Nat) (m : ProcessMonitor) : Prop where
  alive : m.alive = m.lost
  spawned : m.spawned = m.restarts + 1
  within : m.restarts ≤ maxRestarts
  attempts : m.statuses.filterMap attempt? = range' 1 m.restarts
  last : ∃ code, m.statuses.getLast? = some (.exited code)

variable {m} {maxRestarts : Nat}

theorem filterMap_attempt {statuses : List ProcessStatus} {l : List Nat} {status : ProcessStatus}
    (h : statuses.filterMap attempt? = l) (hstatus : attempt? status = none) :
    (statuses ++ [status]).filterMap attempt? = l := by
  rw [filterMap_append, h, filterMap_cons_none hstatus]
  exact append_nil l

theorem Sound.start (maxRestarts pid : Nat) : Sound maxRestarts (.start pid) :=
  ⟨Nat.le_add_left 1 _, by simp [ProcessMonitor.start, attempt?], fun _ => ⟨rfl, rfl, pid, rfl⟩,
    nofun, nofun⟩

theorem Sound.reap (h : Sound maxRestarts m) (hm : m.phase = .waiting) (gone : Bool)
    (code : Option Int) : Reaped maxRestarts (m.reap gone code) := by
  obtain ⟨halive, hspawned, -⟩ := h.waiting hm
  have hle : m.restarts ≤ maxRestarts := by
    have := h.spawned
    omega
  have hattempts : m.statuses.filterMap attempt? = range' 1 m.restarts := by
    rw [h.attempts, min_eq_left hle]
  cases gone with
  | true =>
    refine ⟨?_, hspawned, hle, filterMap_attempt hattempts rfl, code, getLast?_concat⟩
    show m.alive.erase m.child = m.lost
    rw [halive, erase_cons_head]
  | false => exact ⟨halive, hspawned, hle, filterMap_attempt hattempts rfl, code, getLast?_concat⟩

theorem Reaped.finish (h : Reaped maxRestarts m) : Sound maxRestarts { m with phase := .ended } := by
  refine ⟨?_, ?_, nofun, nofun, fun _ => ⟨h.alive, .inr ⟨h.last, h.spawned⟩⟩⟩
  · rw [h.spawned]
    exact Nat.succ_le_succ h.within
  · rw [min_eq_left h.within]
    exact h.attempts

theorem Reaped.afterExit (h : Reaped maxRestarts m) (hmax : maxRestarts < u32Max) :
    Sound maxRestarts (m.afterExit maxRestarts) := by
  have hspawned := h.spawned
  have hwithin := h.within
  have hfits : m.spawned ≤ maxRestarts + 1 := by omega
  have hwraps : (m.restarts + 1) % (u32Max + 1) = m.restarts + 1 := Nat.mod_eq_of_lt (by omega)
  unfold ProcessMonitor.afterExit
  rw [hwraps]
  split
  · exact h.finish
  dsimp only
  split
  next hover =>
    refine ⟨hfits, ?_, nofun, nofun, fun _ => ⟨h.alive, .inl ⟨getLast?_concat, hspawned⟩⟩⟩
    have hmin : min (m.restarts + 1) maxRestarts = m.restarts := by omega
    apply filterMap_attempt _ rfl
    rw [hmin]
    exact h.attempts
  next hroom =>
    have hnext : m.restarts + 1 ≤ maxRestarts := Nat.le_of_not_lt hroom
    refine ⟨hfits, ?_, nofun, fun _ => ⟨h.alive, hspawned, hnext, getLast?_concat⟩, nofun⟩
    show (m.statuses ++ [ProcessStatus.restarting (m.restarts + 1)]).filterMap attempt? = range' 1 (min _ _)
    rw [filterMap_append, h.attempts, min_eq_left hnext, range'_concat, Nat.one_mul, Nat.add_comm 1]
    rfl

theorem Sound.respawn (h : Sound maxRestarts m) (hm : m.phase = .restarting) (answer : Option Nat) :
    Sound maxRestarts (m.respawn answer) := by
  obtain ⟨halive, hspawned, hwithin, -⟩ := h.restarting hm
  cases answer with
  | none =>
    exact ⟨h.spawned, filterMap_attempt h.attempts rfl, nofun, nofun,
      fun _ => ⟨halive, .inl ⟨getLast?_concat, hspawned⟩⟩⟩
  | some pid =>
    refine ⟨?_, filterMap_attempt h.attempts rfl, fun _ => ⟨?_, ?_, pid, getLast?_concat⟩, nofun, nofun⟩
    · show m.spawned + 1 ≤ maxRestarts + 1
      omega
    · show m.spawned :: m.alive = m.spawned :: m.lost
      rw [halive]
    · show m.spawned + 1 = m.restarts + 1
      omega

theorem Sound.step (h : Sound maxRestarts m) (hmax : maxRestarts < u32Max) (e : Event) :
    Sound maxRestarts (m.step maxRestarts e) := by
  cases e with
  | cancel =>
    simp only [ProcessMonitor.step]
    split
    · exact h
    · exact ⟨h.spawned, h.attempts, h.waiting, h.restarting, h.ended⟩
  | dropSender => exact ⟨h.spawned, h.attempts, h.waiting, h.restarting, h.ended⟩
  | exit result =>
    simp only [ProcessMonitor.step]
    split
    next hm => exact (h.reap hm _ _).afterExit hmax
    · exact h
  | changed killed =>
    simp only [ProcessMonitor.step]
    split
    next hm => exact (h.reap hm.1 killed none).finish
    · exact h
  | respawn answer =>
    simp only [ProcessMonitor.step]
    split
    next hm => exact h.respawn hm answer
    · exact h

theorem Sound.run (h : Sound maxRestarts m) (hmax : maxRestarts < u32Max) (events : List Event) :
    Sound maxRestarts (m.run maxRestarts events) := by
  induction events generalizing m with
  | nil => exact h
  | cons e _ ih => exact ih (h.step hmax e)

theorem run_append (m : ProcessMonitor) (events events' : List Event) :
    m.run maxRestarts (events ++ events') = (m.run maxRestarts events).run maxRestarts events' :=
  foldl_append

/-! ## after a cancellation -/

/-- the processes that were spawned, with the restart that is past the check -/
def committed (m : ProcessMonitor) : Nat := m.spawned + if m.phase = .restarting then 1 else 0

/-- a pending spawn, then the wait -/
theorem drained (h : m.cancelled = true ∨ m.senderGone = true) (answer : Option Nat) (killed : Bool) :
    (m.run maxRestarts [.respawn answer, .changed killed]).phase = .ended := by
  show ((m.step maxRestarts (.respawn answer)).step maxRestarts (.changed killed)).phase = .ended
  cases hm : m.phase with
  | waiting => simp [step, hm, h]
  | restarting => cases answer <;> simp [step, hm, respawn, publish, h]
  | ended => simp [step, hm]

end ProcessMonitor

end Daemon

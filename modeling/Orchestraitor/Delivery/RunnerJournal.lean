import Orchestraitor.Delivery.RunnerExec

/-!
# The journal determines the state

The journal is the durable record of a run.  `Replays` relates a state to it: what is completed,
blocked, running and spent can be read off the events, every record belongs to the latest open
start of its task, and every start comes after the completions it depends on.
-/

namespace Delivery
open Base Std List RunnerEvent

def RunnerEvent.isStart : RunnerEvent → Bool
  | .started _ => true
  | _ => false

variable (t : BacklogTaskId) (journal : List RunnerEvent)

def RunnerEvent.closes : RunnerEvent → Bool
  | .attemptRecorded task _ outcome => task == t && outcome != .paused
  | _ => false

def startsOf (journal : List RunnerEvent) : Nat := journal.count (.started t)

def closedOf (journal : List RunnerEvent) : Nat :=
  journal.countP (RunnerEvent.closes t)

theorem isStart_of_isNote {e : RunnerEvent} (h : e.isNote = true) : e.isStart = false := by
  cases e <;> first | rfl | exact absurd h (by simp [isNote])

theorem closes_of_isNote {e : RunnerEvent} (h : e.isNote = true) :
    e.closes t = false := by
  cases e <;> first | rfl | exact absurd h (by simp [isNote])

theorem startsOf_le :
    startsOf t journal ≤ journal.countP isStart := by
  refine countP_mono_left (fun e _ he => ?_)
  rw [eq_of_beq he]
  rfl

theorem startsOf_append {es : List RunnerEvent} (h : ∀ e ∈ es, e.isStart = false) :
    startsOf t (journal ++ es) = startsOf t journal := by
  refine countP_append_eq (fun e he => ?_)
  have := h e he
  cases e <;> first | rfl | exact absurd this (by simp [isStart])

theorem closedOf_append {es : List RunnerEvent} (h : ∀ e ∈ es, e.closes t = false) :
    closedOf t (journal ++ es) = closedOf t journal :=
  countP_append_eq h

namespace BacklogRunner

/-- a start is justified by the completions of its dependencies -/
def StartJustified (dag : TaskDag) (pre : List RunnerEvent) (e : RunnerEvent) : Prop :=
  ∀ t, e = .started t → ∀ dep ∈ dag.deps t, ∃ a, .attemptRecorded dep a .completed ∈ pre

/-- a record belongs to the latest start of its task, and that start is open -/
def RecordJustified (pre : List RunnerEvent) (e : RunnerEvent) : Prop :=
  ∀ t a o, e = .attemptRecorded t a o → a = startsOf t pre ∧ closedOf t pre < startsOf t pre

/-- the state is what the journal says -/
structure Replays (input : RunnerInput) (r : BacklogRunner) : Prop where
  completed : ∀ t, t ∈ r.completed ↔ ∃ a, .attemptRecorded t a .completed ∈ r.journal
  blocked : ∀ t reason, r.blocked[t]? = some reason ↔ .blocked t reason ∈ r.journal
  running : ∀ t, startsOf t r.journal = closedOf t r.journal + if t ∈ r.running then 1 else 0
  budget : r.budgetRemaining + r.journal.countP RunnerEvent.isStart = input.attemptBudget
  attempts : ∀ t, r.attempts[t]?.getD 0 = startsOf t r.journal
  starts : EachSplit (StartJustified input.dag) r.journal
  records : EachSplit RecordJustified r.journal

section
variable {input : RunnerInput} {r r' : BacklogRunner} {t : BacklogTaskId} {o : AttemptOutcome}

/-! ## what an outcome does to the counters -/

theorem Consumed.mem_completed (hc : Consumed r t o r') (a : BacklogTaskId) :
    a ∈ r'.completed ↔ a ∈ r.completed ∨ (a = t ∧ o = .completed) := by
  cases hc with
  | completed =>
    show a ∈ r.completed.insert t ↔ _
    rw [OrdSet.mem_insert_iff, or_comm]
    simp
  | parked _ _ _ ho =>
    have hne : o ≠ .completed := by
      rintro rfl
      exact absurd ho (by simp [AttemptOutcome.parks])
    simp [hne]
  | _ => simp

theorem Consumed.startsOf_eq (hc : Consumed r t o r') (a : BacklogTaskId) :
    startsOf a r'.journal = startsOf a r.journal := by
  obtain ⟨notes, hj, hn⟩ := hc.notes
  rw [hj]
  refine startsOf_append a _ (fun e he => ?_)
  rcases mem_cons.mp he with e' | e'
  · rw [e']; rfl
  · exact isStart_of_isNote (hn e e')

theorem Consumed.countP_isStart (hc : Consumed r t o r') :
    r'.journal.countP isStart = r.journal.countP isStart := by
  obtain ⟨notes, hj, hn⟩ := hc.notes
  rw [hj]
  refine countP_append_eq (fun e he => ?_)
  rcases mem_cons.mp he with e' | e'
  · rw [e']; rfl
  · exact isStart_of_isNote (hn e e')

theorem Consumed.closedOf_eq (hc : Consumed r t o r') (a : BacklogTaskId) :
    closedOf a r'.journal
      = closedOf a r.journal + if a = t ∧ o ≠ .paused then 1 else 0 := by
  obtain ⟨notes, hj, hn⟩ := hc.notes
  rw [hj, append_cons, closedOf_append a _ (fun e he => closes_of_isNote a (hn e he))]
  rw [closedOf, closedOf]
  by_cases e : a = t
  · subst e
    simp [closes]
  · have e' : ¬ t = a := fun x => e x.symm
    simp [closes, e, e']

theorem Consumed.blocked_iff (hc : Consumed r t o r') (hn : ∀ a : BacklogTaskId, r.blocked[a]? = none)
    (hj : ∀ a b, .blocked a b ∉ r.journal) (a : BacklogTaskId) (b : BlockReason) :
    r'.blocked[a]? = some b ↔ .blocked a b ∈ r'.journal := by
  have hins : ∀ reason : BlockReason,
      (r.blocked.insert t reason)[a]? = some b ↔ a = t ∧ b = reason := by
    intro _
    rw [OrdMap.get_insert, hn]
    split_ifs with e
    · simp [e, eq_comm]
    · simp [e]
  cases hc with
  | completed | paused => simp [hn, hj]
  | parked => simp only [hins]; simp [hj]
  | requeued _ _ _ _ _ _ _ _ hq => cases hq <;> simp [hn, hj]
  | escalated _ _ _ _ _ _ _ _ hf =>
    rcases hf with rfl | rfl <;> simp [hn, hj]
  | exhausted _ _ _ _ _ _ _ hf =>
    simp only [hins]
    rcases hf with rfl | rfl <;> simp [hj]

theorem Consumed.completed_iff (hc : Consumed r t o r')
    (h : ∀ a, a ∈ r.completed ↔ ∃ x, .attemptRecorded a x .completed ∈ r.journal)
    (a : BacklogTaskId) :
    a ∈ r'.completed ↔ ∃ x, .attemptRecorded a x .completed ∈ r'.journal := by
  obtain ⟨notes, hj, hn⟩ := hc.notes
  rw [hc.mem_completed, h, hj]
  have hnone : ∀ x, .attemptRecorded a x .completed ∉ notes := fun x hx =>
    absurd (hn _ hx) (by simp [isNote])
  constructor
  · rintro (⟨x, hx⟩ | ⟨rfl, rfl⟩)
    · exact ⟨x, mem_append_left _ hx⟩
    · exact ⟨_, mem_append_right _ mem_cons_self⟩
  · rintro ⟨x, hx⟩
    rcases mem_append.mp hx with e | e
    · exact .inl ⟨x, e⟩
    · rcases mem_cons.mp e with e | e
      · cases e; exact .inr ⟨rfl, rfl⟩
      · exact absurd e (hnone x)

theorem startsOf_started (a t : BacklogTaskId) (journal : List RunnerEvent) :
    startsOf a (journal ++ [.started t]) = startsOf a journal + if a = t then 1 else 0 := by
  rw [startsOf, startsOf]
  by_cases e : a = t
  · simp [e]
  · have e' : ¬ t = a := fun x => e x.symm
    simp [e, e']

/-! ## the relation is kept -/

theorem Replays.attemptOf (h : Replays input r) (ht : t ∈ r.running) :
    r.attemptOf t = startsOf t r.journal ∧ closedOf t r.journal < startsOf t r.journal := by
  have h1 := h.running t
  rw [if_pos ht] at h1
  have h2 := h.attempts t
  refine ⟨?_, by omega⟩
  rw [BacklogRunner.attemptOf]
  cases hg : r.attempts[t]? with
  | none => rw [hg] at h2; simp at h2; omega
  | some => rw [hg] at h2; exact h2

theorem Replays.record (hsh : Shape input r) (h : Replays input r) (hs : r.stopReason = none)
    (ht : t ∈ r.running) (hc : Consumed r t o r') : Replays input r' := by
  obtain ⟨hat, hb⟩ := hc.counters
  obtain ⟨hnum, hopen⟩ := h.attemptOf ht
  refine ⟨fun a => ?_, fun a reason => ?_, fun a => ?_, ?_, fun a => ?_, ?_, ?_⟩
  · exact hc.completed_iff h.completed a
  · refine hc.blocked_iff (hsh.get_blocked hs) (fun x b hb => ?_) a reason
    exact hsh.blocked_ne hs x b ((h.blocked x b).mpr hb)
  · rw [hc.startsOf_eq, hc.closedOf_eq, h.running a]
    have hrun := hc.mem_running a
    by_cases e : a = t
    · subst e
      by_cases ho : o = .paused <;> simp [hrun, ht, ho]
    · simp [hrun, e]
  · rw [hb, hc.countP_isStart]
    exact h.budget
  · rw [hat, hc.startsOf_eq]
    exact h.attempts a
  · refine hc.eachSplit h.starts ?_ ?_
    · intro s hs'
      exact absurd hs' (by simp)
    · intro _ _ he _ hs'
      rw [hs'] at he
      exact absurd he (by simp [isNote])
  · refine hc.eachSplit h.records ?_ ?_
    · intro _ _ _ heq
      cases heq
      exact ⟨hnum, hopen⟩
    · intro _ _ he _ _ _ heq
      rw [heq] at he
      exact absurd he (by simp [isNote])

theorem Replays.start (hsh : Shape input r) (h : Replays input r)
    (he : t ∈ r.dag.eligible r.completed) (hr : t ∉ r.running) (hb : 0 < r.budgetRemaining) :
    Replays input (r.start t) := by
  have hj : (r.start t).journal = r.journal ++ [.started t] := rfl
  have htotal : (r.journal ++ [started t]).countP isStart
      = r.journal.countP isStart + 1 := by
    rw [countP_append]
    rfl
  refine ⟨fun a => ?_, fun a reason => ?_, fun a => ?_, ?_, fun a => ?_, ?_, ?_⟩
  · rw [hj]
    refine (h.completed a).trans ?_
    simp
  · rw [hj]
    refine (h.blocked a reason).trans ?_
    simp
  · rw [hj, startsOf_started, h.running a, closedOf_append a _ (by simp [closes])]
    show _ = _ + if a ∈ r.running.insert t then 1 else 0
    by_cases e : a = t
    · subst e; simp [hr]
    · simp only [OrdSet.mem_insert_iff, e, ↓reduceIte, false_or, Nat.add_zero]
  · rw [hj]
    have := h.budget
    show r.budgetRemaining - 1 + _ = _
    omega
  · -- the counter cannot saturate: it is below the spent budget
    show (r.attempts.insert t (satAdd32 (r.attempts[t]?.getD 0) 1))[a]?.getD 0 = _
    rw [OrdMap.get_insert, hj, startsOf_started]
    by_cases e : a = t
    · subst e
      have hle := startsOf_le a r.journal
      have hbud := h.budget
      have hmax := input.attemptBudget_le
      rw [if_pos rfl, if_pos rfl, Option.getD_some, h.attempts a, satAdd32_eq (by omega)]
    · rw [if_neg e, if_neg e]
      exact h.attempts a
  · refine h.starts.concat (fun s heq dep hd => ?_)
    cases heq
    rw [hsh.dag_eq] at he
    exact (h.completed dep).mp ((input.dag.mem_eligible.mp he).2.2 dep hd)
  · refine h.records.concat (fun s a o heq => ?_)
    exact absurd heq (by simp)

theorem Replays.control (h : Replays input r) {es : List RunnerEvent}
    (hes : ∀ e ∈ es, e = .paused ∨ e = .resumed ∨ e = .budgetExhausted ∨ ∃ x, e = .stopped x)
    (p : Bool) (stop : Option StopReason) : Replays input { r with
      journal := r.journal ++ es
      paused := p
      stopReason := stop } := by
  have hstart : ∀ e ∈ es, e.isStart = false := by
    intro e he
    rcases hes e he with rfl | rfl | rfl | ⟨x, rfl⟩ <;> rfl
  have hclose : ∀ a, ∀ e ∈ es, e.closes a = false := by
    intro a e he
    rcases hes e he with rfl | rfl | rfl | ⟨x, rfl⟩ <;> rfl
  have hnorec : ∀ a x o, .attemptRecorded a x o ∉ es := by
    intro a x o hm
    rcases hes _ hm with e | e | e | ⟨_, e⟩ <;> exact absurd e (by simp)
  have hnoblk : ∀ a b, .blocked a b ∉ es := by
    intro a b hm
    rcases hes _ hm with e | e | e | ⟨_, e⟩ <;> exact absurd e (by simp)
  refine ⟨fun a => ?_, fun a reason => ?_, fun a => ?_, ?_, fun a => ?_, ?_, ?_⟩
  · refine (h.completed a).trans ?_
    simp [hnorec]
  · refine (h.blocked a reason).trans ?_
    simp [hnoblk]
  · rw [startsOf_append a _ hstart, closedOf_append a _ (hclose a)]
    exact h.running a
  · rw [countP_append_eq hstart]
    exact h.budget
  · rw [startsOf_append a _ hstart]
    exact h.attempts a
  · refine h.starts.append (fun pre e post heq s hs => ?_)
    have := hstart e (by rw [heq]; simp)
    rw [hs] at this
    exact absurd this (by simp [isStart])
  · refine h.records.append (fun pre e post heq s a o hs => ?_)
    exact absurd (show e ∈ es by rw [heq]; simp) (hs ▸ hnorec s a o)

theorem Replays.step (hsh : Shape input r) (h : Replays input r) (hst : Step r r') :
    Replays input r' := by
  cases hst with
  | record _ _ hs _ ht hc => exact h.record hsh hs ht hc
  | shed => exact { h with }
  | start _ _ _ he hr _ hb => exact h.start hsh he hr hb
  | halt _ reason _ hh =>
    exact h.control (fun e he => hh.control he) r.paused (some reason)
  | pause => exact h.control (by simp) true r.stopReason
  | resume => exact h.control (by simp) false _

theorem replays_new {r0 : BacklogRunner} (hnew : new input = .ok r0) : Replays input r0 := by
  obtain ⟨_, _, _, rfl, _⟩ := new_spec hnew
  refine ⟨fun t => ?_, fun t reason => ?_, fun t => ?_, Nat.add_zero _, fun t => ?_,
    EachSplit.nil _, EachSplit.nil _⟩ <;> simp [initial, startsOf, closedOf]

end

theorem state_is_replay (input : RunnerInput) (r0 : BacklogRunner)
    (hnew : new input = .ok r0) (calls : List Call) :
    let r := r0.exec calls
    (∀ t, t ∈ r.completed ↔ ∃ a, .attemptRecorded t a .completed ∈ r.journal) ∧
    (∀ t reason, r.blocked[t]? = some reason ↔ .blocked t reason ∈ r.journal) ∧
    (∀ t, t ∈ r.running ↔ closedOf t r.journal < startsOf t r.journal) ∧
    (∀ t, startsOf t r.journal ≤ closedOf t r.journal + 1) ∧
    r.budgetRemaining + r.journal.countP isStart = input.attemptBudget ∧
    (∀ pre t a o post, r.journal = pre ++ .attemptRecorded t a o :: post →
      a = startsOf t pre ∧ closedOf t pre < startsOf t pre) ∧
    (∀ pre t post, r.journal = pre ++ .started t :: post → ∀ dep ∈ input.dag.deps t,
      ∃ a, .attemptRecorded dep a .completed ∈ pre) ∧
    (∀ t, (t ∈ r.completed ∨ t ∈ r.blocked ∨ t ∈ r.running ∨ t ∈ r.pending) →
      t ∈ input.dag.tasks) ∧
    (∀ t ∈ r.completed, t ∉ r.blocked ∧ t ∉ r.running ∧ t ∉ r.pending) ∧
    (∀ t ∈ r.blocked, t ∉ r.running ∧ t ∉ r.pending) ∧
    ∀ t ∈ r.running, t ∉ r.pending := by
  intro r
  have h : Replays input r :=
    exec_induction hnew (replays_new hnew) (fun _ _ => Replays.step) calls
  have hsh : Shape input r := exec_shape hnew calls
  have hel : ∀ t, t ∈ r.dag.eligible r.completed → t ∈ input.dag.tasks ∧ t ∉ r.completed := by
    intro t ht
    rw [hsh.dag_eq] at ht
    exact ⟨(input.dag.mem_eligible.mp ht).1, (input.dag.mem_eligible.mp ht).2.1⟩
  have hblk : ∀ t ∈ r.blocked, t ∈ r.dag.eligible r.completed ∧ t ∉ r.running ∧ t ∉ r.pending := by
    intro t ht
    obtain ⟨reason, hreason⟩ := (OrdMap.mem_iff_get _ _).mp ht
    exact (hsh.blocked_stop t reason hreason).2
  have hrun : ∀ t, (if t ∈ r.running then 1 else 0) ≤ 1 := fun t => by split_ifs <;> omega
  refine ⟨h.completed, h.blocked, fun t => ?_, fun t => ?_, h.budget,
    fun pre t a o post heq => h.records pre _ post heq t a o rfl,
    fun pre t post heq => h.starts pre _ post heq t rfl, ?_, fun t ht => ⟨?_, ?_, ?_⟩,
    fun t ht => (hblk t ht).2, hsh.running_pending⟩
  · have := h.running t
    by_cases e : t ∈ r.running
    · rw [if_pos e] at this
      exact ⟨fun _ => by omega, fun _ => e⟩
    · rw [if_neg e] at this
      exact ⟨fun x => absurd x e, fun _ => by omega⟩
  · have h1 := h.running t
    have h2 := hrun t
    omega
  · rintro t (ht | ht | ht | ht)
    · exact hsh.dag_eq ▸ hsh.completed_known t ht
    · exact (hel t (hblk t ht).1).1
    · exact (hel t (hsh.running_eligible t ht)).1
    · exact (hel t (hsh.pending_eligible t ht)).1
  · exact fun hm => (hel t (hblk t hm).1).2 ht
  · exact fun hm => (hel t (hsh.running_eligible t hm)).2 ht
  · exact fun hm => (hel t (hsh.pending_eligible t hm)).2 ht

def pauseAndResume : List Call := [.tick ∅, .tick {("a", .paused)}, .resume, .tick ∅]

theorem state_is_replay_sample :
    (sampleRunner.exec pauseAndResume).running.toList = ["a"] ∧
      (sampleRunner.exec pauseAndResume).budgetRemaining +
        (sampleRunner.exec pauseAndResume).journal.countP RunnerEvent.isStart
          = sampleInput.attemptBudget :=
  ⟨by decide +kernel,
    (state_is_replay sampleInput sampleRunner sampleRunner_new pauseAndResume).2.2.2.2.1⟩

end BacklogRunner
end Delivery

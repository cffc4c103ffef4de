import Orchestraitor.Delivery.RunnerExec

/-!
# What the runner never does

Safety over every finite sequence of calls with arbitrary outcomes.
-/

namespace Delivery
open Base Std
namespace BacklogRunner

/-- every attempt in flight fits the caps, and its dependencies are completed -/
theorem running_within_caps (input : RunnerInput) (r0 : BacklogRunner)
    (hnew : new input = .ok r0) (calls : List Call) :
    let r := r0.exec calls
    r.running.size ≤ input.schedulerConfig.maxConcurrent ∧
    r.running.size ≤ input.schedulerConfig.reviewCapacity ∧
    (∀ cap, input.schedulerConfig.maxPerDomain = some cap → ∀ d,
      OrdSet.countP (fun t => input.dag.domainOf t == some d) r.running ≤ cap) ∧
    (∀ a ∈ r.running, ∀ b ∈ r.running, a ≠ b →
      ∀ f ∈ input.dag.filesOf a, f ∉ input.dag.filesOf b) ∧
    ∀ t ∈ r.running, ∀ dep ∈ input.dag.deps t, dep ∈ r.completed := by
  intro r
  have h : Shape input r := exec_shape hnew calls
  have hcaps := h.caps
  rw [h.scheduler_eq, h.dag_eq] at hcaps
  have hsize : r.running.toList.length = r.running.size := ExtTreeSet.length_toList
  refine ⟨hsize ▸ hcaps.concurrent, hsize ▸ hcaps.review, hcaps.perDomain, ?_, ?_⟩
  · intro a ha b hb hab
    exact hcaps.files.forall (ExtTreeSet.mem_toList.mpr ha) (ExtTreeSet.mem_toList.mpr hb) hab
  · intro t ht dep hd
    have he := h.running_eligible t ht
    rw [h.dag_eq] at he
    exact (input.dag.mem_eligible.mp he).2.2 dep hd

theorem running_within_caps_sample :
    (sampleRunner.exec [.tick ∅, .pause, .resume]).running.toList = ["a"] ∧
      (sampleRunner.exec [.tick ∅, .pause, .resume]).running.size ≤ 4 :=
  ⟨by decide +kernel,
    (running_within_caps sampleInput sampleRunner sampleRunner_new [.tick ∅, .pause, .resume]).1⟩

/-! ## stop reasons -/

def StopsWith (r : BacklogRunner) (reason : StopReason) : Prop :=
  r.stopReason = some reason ∨ .stopped reason ∈ r.journal

section
variable {input : RunnerInput} {r r' : BacklogRunner}

theorem StopsWith.of_consumed {t : BacklogTaskId} {o : AttemptOutcome} {reason : StopReason}
    (hc : Consumed r t o r') (hidle : (RunnerEvent.stopped reason).isNote = false)
    (h : StopsWith r' reason) : StopsWith r reason := by
  rcases h with h | h
  · -- the stop reasons an outcome sets are notes
    cases hc with
    | completed => exact .inl h
    | paused => rw [← Option.some.inj h] at hidle; exact absurd hidle (by decide)
    | parked _ b =>
      rw [← Option.some.inj h] at hidle
      cases b <;> exact absurd hidle (by decide)
    | requeued | escalated => exact .inl h
    | exhausted => rw [← Option.some.inj h] at hidle; exact absurd hidle (by decide)
  · rcases hc.mem_journal h with e | e | e
    · exact .inr e
    · exact absurd e (by simp)
    · rw [hidle] at e; exact absurd e (by simp)

theorem StopsWith.of_step {reason : StopReason} (hst : Step r r')
    (hidle : (RunnerEvent.stopped reason).isNote = false) (h : StopsWith r' reason) :
    StopsWith r reason ∨ ∃ notes, r.stopReason = none ∧ Halts r notes reason ∧
      r'.completed = r.completed := by
  cases hst with
  | record _ _ _ _ _ hc => exact .inl (.of_consumed hc hidle h)
  | shed => exact .inl h
  | start =>
    refine .inl (h.imp_right (fun hm => ?_))
    simpa [start, pushEvent] using hm
  | halt notes reason' hs hh =>
    by_cases e : reason = reason'
    · subst e; exact .inr ⟨notes, hs, hh, rfl⟩
    · refine .inl ?_
      rcases h with h | h
      · exact absurd (Option.some.inj h).symm e
      · refine .inr ?_
        cases hh <;> simpa [e] using h
  | pause => exact .inl (h.imp_right (fun hm => by simpa using hm))
  | resume =>
    refine .inl ?_
    rcases h with h | h
    · change (if r.stopReason = some .paused then none else r.stopReason) = some reason at h
      split_ifs at h
      exact .inl h
    · exact .inr (by simpa using h)

theorem completed_mono (hst : Step r r') : ∀ t ∈ r.completed, t ∈ r'.completed := by
  cases hst with
  | record _ _ _ _ _ hc =>
    cases hc <;> intro a ha
    case completed => exact (OrdSet.mem_insert_iff _ _ _).mpr (.inr ha)
    all_goals exact ha
  | _ => exact fun _ ha => ha

theorem completed_of_step (hst : Step r r') {t : BacklogTaskId} (h : t ∈ r'.completed) :
    t ∈ r.completed ∨ t ∈ r.running := by
  cases hst with
  | record _ _ _ _ ht hc =>
    cases hc
    case completed =>
      rcases (OrdSet.mem_insert_iff _ _ _).mp h with e | e
      · rw [e]; exact .inr ht
      · exact .inl e
    all_goals exact .inl h
  | _ => exact .inl h

/-! ## an empty backlog -/

def EmptySound (input : RunnerInput) (r : BacklogRunner) : Prop :=
  StopsWith r .backlogEmpty → ∀ t ∈ input.dag.tasks, t ∈ r.completed

theorem EmptySound.step (hsh : Shape input r) (h : EmptySound input r) (hst : Step r r') :
    EmptySound input r' := by
  intro hstop t ht
  rcases StopsWith.of_step hst rfl hstop with e | ⟨notes, hs, hh, hcomp⟩
  · exact completed_mono hst t (h e t ht)
  · cases hh with
    | empty hsize =>
      rw [hcomp]
      rw [← hsh.dag_eq] at ht
      exact OrdSet.mem_of_size_eq hsh.completed_known hsize ht

/-! ## no eligible tasks -/

theorem exists_eligible {dag : TaskDag} {order : List BacklogTaskId}
    (ho : dag.topologicalOrder = .ok order) {completed : OrdSet BacklogTaskId}
    (hknown : ∀ t ∈ completed, t ∈ dag.tasks) (hsize : completed.size ≠ dag.len) :
    ∃ t, t ∈ dag.eligible completed := by
  obtain ⟨-, hlegal, hperm⟩ := dag.topologicalOrder_ok ho
  have hmem : ∀ id, id ∈ order ↔ id ∈ dag.tasks := fun id => hperm.mem_iff.trans ExtTreeMap.mem_keys
  have hopen : ∃ t ∈ order, t ∉ {t | t ∈ completed} := by
    by_contra hno
    push Not at hno
    exact hsize (OrdSet.size_eq_of_mem_iff (fun t =>
      ⟨hknown t, fun ht => hno t ((hmem t).mpr ht)⟩))
  obtain ⟨t, ht, hnc, hdeps⟩ := hlegal.exists_enabled (Set.empty_subset _) hopen
  exact ⟨t, dag.mem_eligible.mpr ⟨(hmem t).mp ht, hnc, hdeps⟩⟩

theorem not_stopsWith_noEligible {order : List BacklogTaskId}
    (ho : input.dag.topologicalOrder = .ok order) (hsh : Shape input r)
    (h : ¬ StopsWith r .noEligibleTasks) (hst : Step r r') : ¬ StopsWith r' .noEligibleTasks := by
  intro hstop
  rcases StopsWith.of_step hst rfl hstop with e | ⟨notes, hs, hh, _⟩
  · exact h e
  · cases hh with
    | noEligible hsize hblocked =>
      rw [← hsh.dag_eq] at ho
      obtain ⟨t, ht⟩ := exists_eligible ho hsh.completed_known hsize
      exact hsh.not_blocked hs t (hblocked t ht)

/-! ## cycles -/

/-- the tasks of a stuck set are never touched -/
structure Untouched (path : List String) (r : BacklogRunner) : Prop where
  completed : ∀ t ∈ path, t ∉ r.completed
  running : ∀ t ∈ path, t ∉ r.running
  started : ∀ t ∈ path, .started t ∉ r.journal

theorem Untouched.step {path : List String} (hstuck : Stuck input.dag.deps {t | t ∈ path})
    (hsh : Shape input r) (h : Untouched path r) (hst : Step r r') : Untouched path r' := by
  -- an eligible task has all its dependencies completed, a stuck one has not
  have hel : ∀ t ∈ path, t ∉ r.dag.eligible r.completed := by
    intro t ht he
    rw [hsh.dag_eq] at he
    have hdis : ∀ a ∈ {t | t ∈ path}, a ∉ {t | t ∈ r.completed} := h.completed
    exact hstuck.not_enabled hdis (input.dag.mem_eligible.mp he).2.2 ht
  refine ⟨fun t ht hm => ?_, fun t ht hm => ?_, fun t ht hm => ?_⟩
  · exact (completed_of_step hst hm).elim (h.completed t ht) (h.running t ht)
  · cases hst with
    | record a o hs hp ha hc =>
      exact h.running t ht ((Recorded.inflight ⟨a, o, hs, hp, ha, hc⟩).1 t hm)
    | start _ _ _ he =>
      rcases (OrdSet.mem_insert_iff _ _ _).mp hm with e | e
      · exact hel t ht (e ▸ he)
      · exact h.running t ht e
    | _ => exact h.running t ht hm
  · refine h.started t ht ?_
    cases hst with
    | record _ _ _ _ _ hc =>
      rcases hc.mem_journal hm with e | e | e
      · exact e
      · exact absurd e (by simp)
      · exact absurd e (by simp [RunnerEvent.isNote])
    | shed => exact hm
    | start a _ _ he =>
      have hne : t ≠ a := fun e => hel t ht (e ▸ he)
      simpa [BacklogRunner.start, pushEvent, hne] using hm
    | halt _ _ _ hh => cases hh <;> simpa using hm
    | pause | resume => simpa using hm

end

/-- what the two idle stop reasons mean, for acyclic and for cyclic graphs -/
theorem stop_reason_sound (input : RunnerInput) (r0 : BacklogRunner)
    (hnew : new input = .ok r0) (calls : List Call) :
    let r := r0.exec calls
    (StopsWith r .backlogEmpty → ∀ t ∈ input.dag.tasks, t ∈ r.completed) ∧
    (∀ order, input.dag.topologicalOrder = .ok order → ¬ StopsWith r .noEligibleTasks) ∧
    ∀ path, input.dag.topologicalOrder = .error (.cycle path) →
      ¬ StopsWith r .backlogEmpty ∧ ∀ t ∈ path, .started t ∉ r.journal := by
  intro r
  obtain ⟨_, _, _, hr0, _⟩ := new_spec hnew
  have hquiet : ∀ reason, ¬ StopsWith r0 reason := by
    intro _ h
    rw [hr0] at h
    simp [StopsWith, initial] at h
  have hempty : EmptySound input r :=
    exec_induction hnew (fun h => absurd h (hquiet _)) (fun _ _ => EmptySound.step) calls
  refine ⟨hempty, fun order ho => ?_, fun path hpath => ?_⟩
  · exact exec_induction hnew (hquiet _) (fun _ _ => not_stopsWith_noEligible ho) calls
  · obtain ⟨hstuck, hne, hknown⟩ := input.dag.topologicalOrder_cycle hpath
    have h0 : Untouched path r0 := by
      rw [hr0]
      exact ⟨fun _ _ => ExtTreeSet.not_mem_empty, fun _ _ => ExtTreeSet.not_mem_empty,
        fun _ _ => List.not_mem_nil⟩
    have hun : Untouched path r :=
      exec_induction hnew h0 (fun _ _ => Untouched.step hstuck) calls
    refine ⟨fun hstop => ?_, hun.started⟩
    obtain ⟨t, ht⟩ := List.exists_mem_of_ne_nil _ hne
    exact hun.completed t ht (hempty hstop t (hknown t ht))

def finishBoth : List Call := [.tick ∅, .tick {("a", .completed)}, .tick {("b", .completed)}]

theorem stop_reason_sound_sample :
    (sampleRunner.exec finishBoth).stopReason = some .backlogEmpty ∧
      ∀ t ∈ sampleInput.dag.tasks, t ∈ (sampleRunner.exec finishBoth).completed := by
  have hstop : (sampleRunner.exec finishBoth).stopReason = some .backlogEmpty := by
    decide +kernel
  exact ⟨hstop,
    (stop_reason_sound sampleInput sampleRunner sampleRunner_new finishBoth).1 (.inl hstop)⟩

end BacklogRunner
end Delivery

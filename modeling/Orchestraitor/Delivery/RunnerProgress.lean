import Orchestraitor.Delivery.RunnerExec

/-!
# The runner never stalls

An idle unstopped runner has nothing left to start: with nothing in flight the scheduler always
offers a task, and the dispatch loop starts it or stops on the budget.  If every running attempt is
answered on every tick, `workLeft` falls with every tick, so the run stops.
-/

namespace Delivery
open Base Std Relation List
namespace BacklogRunner

section
variable {input : RunnerInput} {r r' : BacklogRunner} {t : BacklogTaskId}

/-! ## the dispatch loop -/

/-- The rule of the dispatch loop, for a relation between the runner before and after it: the loop
ends, stops on the budget, or goes on from a started task. -/
theorem dispatch_induction {P : BacklogRunner → BacklogRunner → Prop} (sel : List BacklogTaskId)
    (hnil : ∀ r, P r r) (hstop : ∀ r, P r ((r.pushEvent .budgetExhausted).setStop .budgetExhausted))
    (hstart : ∀ r r' t, r.budgetRemaining ≠ 0 → P (r.start t) r' → P r r')
    (l : List BacklogTaskId) (r : BacklogRunner) : P r (dispatch sel l r) := by
  induction l generalizing r with
  | nil => exact hnil r
  | cons t _ ih =>
    rw [dispatch]
    by_cases hts : t ∈ sel
    · rw [if_neg (not_not.mpr hts)]
      by_cases hb : r.budgetRemaining = 0
      · rw [if_pos hb]
        exact hstop r
      · rw [if_neg hb]
        exact hstart r _ t hb (ih (r.start t))
    · rw [if_pos hts]
      exact ih r

theorem dispatch_frame (sel l : List BacklogTaskId) (r : BacklogRunner) :
    (dispatch sel l r).dag = r.dag ∧ (dispatch sel l r).completed = r.completed ∧
      (dispatch sel l r).blocked = r.blocked ∧ (dispatch sel l r).pending = r.pending ∧
      (dispatch sel l r).paused = r.paused := by
  apply dispatch_induction (P := fun r r' => r'.dag = r.dag ∧ r'.completed = r.completed ∧
    r'.blocked = r.blocked ∧ r'.pending = r.pending ∧ r'.paused = r.paused)
  · exact fun _ => ⟨rfl, rfl, rfl, rfl, rfl⟩
  · intro r
    rw [setStop]
    split_ifs <;> exact ⟨rfl, rfl, rfl, rfl, rfl⟩
  · exact fun _ _ _ _ h => h

theorem dispatch_running_mono (sel l : List BacklogTaskId) (r : BacklogRunner)
    (ht : t ∈ r.running) : t ∈ (dispatch sel l r).running := by
  revert ht
  apply dispatch_induction (P := fun r r' => t ∈ r.running → t ∈ r'.running)
  · exact fun _ ht => ht
  · intro r ht
    rw [setStop]
    split_ifs <;> exact ht
  · exact fun _ _ _ _ h ht => h ((OrdSet.mem_insert_iff _ _ _).mpr (.inr ht))

theorem dispatch_started {sel l : List BacklogTaskId} (hs : r.stopReason = none)
    (ht : t ∈ l) (hsel : t ∈ sel) :
    (dispatch sel l r).stopReason.isSome ∨ ∃ a, a ∈ (dispatch sel l r).running := by
  induction l generalizing r with
  | nil => exact absurd ht not_mem_nil
  | cons a rest ih =>
    rw [dispatch]
    by_cases hts : a ∈ sel
    · rw [if_neg (not_not.mpr hts)]
      by_cases hb : r.budgetRemaining = 0
      · rw [if_pos hb, setStop_eq (by exact hs)]
        exact .inl rfl
      · rw [if_neg hb]
        refine .inr ⟨a, dispatch_running_mono sel rest (r.start a) ?_⟩
        exact (OrdSet.mem_insert_iff _ _ _).mpr (.inl rfl)
    · rw [if_pos hts]
      refine ih hs ?_
      rcases mem_cons.mp ht with e | e
      · exact absurd (e ▸ hsel) hts
      · exact e

theorem dispatch_budget (sel l : List BacklogTaskId) (r : BacklogRunner) :
    (dispatch sel l r).budgetRemaining < r.budgetRemaining ∨
      ((dispatch sel l r).budgetRemaining = r.budgetRemaining ∧
        ∀ a ∈ (dispatch sel l r).running, a ∈ r.running) := by
  apply dispatch_induction (P := fun r r' => r'.budgetRemaining < r.budgetRemaining ∨
    (r'.budgetRemaining = r.budgetRemaining ∧ ∀ a ∈ r'.running, a ∈ r.running))
  · exact fun _ => .inr ⟨rfl, fun a ha => ha⟩
  · intro r
    rw [setStop]
    split_ifs <;> exact .inr ⟨rfl, fun a ha => ha⟩
  · intro r _ t _ h
    have hstart : (r.start t).budgetRemaining = r.budgetRemaining - 1 := rfl
    rcases h with e | ⟨e, _⟩ <;> exact .inl (by omega)

/-! ## settling -/

theorem settle_alive (h : r.settle.stopReason = none) : r.settle = r ∧
    ((∃ t, t ∈ r.running) ∨ (∃ t, t ∈ r.pending) ∨
      ∃ t, t ∈ r.dag.eligible r.completed ∧ t ∉ r.blocked) := by
  rw [settle] at h ⊢
  split_ifs at h ⊢ with h1 h2 h3
  · rw [setStop_eq (by simpa using h1.1)] at h; exact absurd h (by simp)
  · rw [setStop_eq (by simpa using h1.1)] at h; exact absurd h (by simp)
  · refine ⟨rfl, .inr (.inr ?_)⟩
    obtain ⟨t, ht⟩ := exists_mem_of_ne_nil _ (fun hn => h3 (length_eq_zero_iff.mpr hn))
    exact ⟨t, (mem_filter.mp ht).1, by simpa using (mem_filter.mp ht).2⟩
  · refine ⟨rfl, ?_⟩
    by_contra hno
    push Not at hno
    exact h1 ⟨by simp [h], (OrdSet.isEmpty_iff_forall _).mpr hno.1,
      (OrdSet.isEmpty_iff_forall _).mpr hno.2.1⟩

/-! ## one tick -/

theorem tickState_alive (hv : input.schedulerConfig.validate = .ok ()) (h : Shape input r)
    (hs : r.stopReason = none) (hp : r.paused = false)
    (outcomes : OrdMap BacklogTaskId AttemptOutcome)
    (hlive : (r.tickState outcomes).stopReason = none) :
    (r.consumedState outcomes).stopReason = none ∧
    r.tickState outcomes = dispatch (r.consumedState outcomes).selection
      ((r.consumedState outcomes).startable r.pending).toList (r.consumedState outcomes) ∧
    ((∃ t, t ∈ (r.tickState outcomes).running) ∨ ∃ t, t ∈ (r.tickState outcomes).pending) := by
  rw [tickState_eq hs hp] at hlive ⊢
  split_ifs at hlive ⊢ with hstop
  · have hstop' : ((r.consumedState outcomes).withDue r.pending).stopReason.isSome := hstop
    rw [hlive] at hstop'
    exact absurd hstop' (by simp)
  · have hs1 : (r.consumedState outcomes).stopReason = none := by simpa using hstop
    obtain ⟨_, hsh1, _, _⟩ := consumedState_spec h hs hp outcomes
    obtain ⟨heq, hwork⟩ := settle_alive hlive
    rw [heq] at hlive ⊢
    refine ⟨hs1, rfl, ?_⟩
    generalize r.consumedState outcomes = r1 at hs1 hsh1 hlive hwork
    obtain ⟨hdag, hcomp, hblk, hpend, _⟩ :=
      dispatch_frame r1.selection (r1.startable r.pending).toList r1
    rcases hwork with e | e | ⟨t, ht, _⟩
    · exact .inl e
    · exact .inr e
    · -- were nothing in flight, the scheduler would have offered a task
      by_contra hidle
      push Not at hidle
      obtain ⟨hrun, hpen⟩ := hidle
      rw [hdag, hcomp] at ht
      rw [hpend] at hpen
      have hrun1 : ∀ a, a ∉ r1.running := fun a ha =>
        hrun a (dispatch_running_mono _ _ _ ha)
      have hnil : r1.running.toList = [] := eq_nil_iff_forall_not_mem.mpr
        (fun a ha => hrun1 a (ExtTreeSet.mem_toList.mp ha))
      have hsel : r1.selection ≠ [] := by
        rw [selection, hnil]
        exact ParallelScheduler.select_ne_nil _ _ (hsh1.scheduler_eq ▸ hv) (ne_nil_of_mem ht)
      obtain ⟨a, ha⟩ := exists_mem_of_ne_nil _ hsel
      have hstart : a ∈ (r1.startable r.pending).toList :=
        ExtTreeSet.mem_toList.mpr (mem_startable.mpr (.inr
          ⟨(ParallelScheduler.mem_select _ _ ha).1, hsh1.not_blocked hs1 a, hrun1 a, hpen a⟩))
      rcases dispatch_started hs1 hstart ha with e | ⟨b, hb⟩
      · rw [hlive] at e; exact absurd e (by simp)
      · exact hrun b hb

def Answers (outcomes : OrdMap BacklogTaskId AttemptOutcome) (r : BacklogRunner) : Prop :=
  ∀ t ∈ r.running, ∃ o, outcomes[t]? = some o ∧ o ≠ .paused

theorem consumeAll_clears (l : List (BacklogTaskId × AttemptOutcome)) (h : Shape input r)
    (hp : r.stopReason = none → r.paused = false) {o : AttemptOutcome} (hm : (t, o) ∈ l)
    (ho : o ≠ .paused) (hlive : (consumeAll l r).stopReason = none) :
    t ∉ (consumeAll l r).running := by
  induction l generalizing r with
  | nil => exact absurd hm not_mem_nil
  | cons p rest ih =>
    obtain ⟨a, oa⟩ := p
    rw [consumeAll] at hlive ⊢
    split_ifs at hlive ⊢ with h1 h2
    · rw [hlive] at h1; exact absurd h1 (by simp)
    · have hs : r.stopReason = none := by simpa using h1
      obtain ⟨e, he⟩ := h.ladder_running h2
      have hc := consumeOutcome_spec h2 hs he oa
      have hrec : Recorded r ({ r with running := r.running.erase a }.consumeOutcome a oa) :=
        ⟨a, oa, hs, hp hs, h2, hc⟩
      rcases mem_cons.mp hm with e' | e'
      · cases e'
        intro hin
        have hloop := consumeAll_recorded rest (h.step hrec.step) hrec.paused_iff
        have := (hc.mem_running t).mp ((recorded_inflight hloop).1 t hin)
        exact ho (this.2 rfl)
      · exact ih (h.step hrec.step) hrec.paused_iff e' hlive
    · rcases mem_cons.mp hm with e' | e'
      · cases e'
        exact fun hin => h2 ((recorded_inflight (consumeAll_recorded rest h hp)).1 t hin)
      · exact ih h hp e' hlive

theorem consumed_budget (hrec : ReflTransGen Recorded r r') :
    r'.budgetRemaining = r.budgetRemaining := by
  induction hrec with
  | refl => rfl
  | tail _ hs ih =>
    obtain ⟨_, _, _, _, _, hc⟩ := hs
    rw [hc.counters.2, ih]

/-- the measure: two per unit of budget, one for attempts in flight -/
def workLeft (r : BacklogRunner) : Nat :=
  2 * r.budgetRemaining + if r.running.isEmpty then 0 else 1

theorem workLeft_bounds (r : BacklogRunner) :
    2 * r.budgetRemaining ≤ r.workLeft ∧ r.workLeft ≤ 2 * r.budgetRemaining + 1 := by
  rw [workLeft]
  split_ifs <;> omega

theorem tick_workLeft (hv : input.schedulerConfig.validate = .ok ()) (h : Shape input r)
    (hs : r.stopReason = none) (hp : r.paused = false)
    (outcomes : OrdMap BacklogTaskId AttemptOutcome) (ha : Answers outcomes r)
    (hlive : (r.tickState outcomes).stopReason = none) :
    (r.tickState outcomes).workLeft < r.workLeft ∧ (r.tickState outcomes).paused = false := by
  obtain ⟨hs1, heq, hwork⟩ := tickState_alive hv h hs hp outcomes hlive
  obtain ⟨hrec, hsh1, hpend, hpause⟩ := consumedState_spec h hs hp outcomes
  obtain ⟨_, _, _, hfp, hfpause⟩ := dispatch_frame (r.consumedState outcomes).selection
    ((r.consumedState outcomes).startable r.pending).toList (r.consumedState outcomes)
  have hbudget : (r.consumedState outcomes).budgetRemaining = r.budgetRemaining := by
    have := consumed_budget hrec
    exact this
  -- every attempt that was in flight has been answered
  have hclear : ∀ a, a ∉ (r.consumedState outcomes).running := by
    intro a hin
    obtain ⟨o, ho, hne⟩ := ha a ((recorded_inflight hrec).1 a hin)
    exact consumeAll_clears outcomes.toList (h.step (.shedAll hs)) (fun _ => hp)
      (ExtTreeMap.mem_toList_iff_getElem?_eq_some.mpr ho) hne hs1 hin
  refine ⟨?_, by rw [heq, hfpause]; exact hpause hs1⟩
  rcases dispatch_budget (r.consumedState outcomes).selection
    ((r.consumedState outcomes).startable r.pending).toList (r.consumedState outcomes) with e | e
  · rw [← heq] at e
    have h1 := (r.tickState outcomes).workLeft_bounds
    have h2 := r.workLeft_bounds
    omega
  · -- nothing was started: something is pending, so an attempt was in flight before
    rw [← heq, hbudget] at e
    obtain ⟨hb, hrun⟩ := e
    have hidle : (r.tickState outcomes).running.isEmpty = true :=
      (OrdSet.isEmpty_iff_forall _).mpr (fun a hin => hclear a (hrun a hin))
    have hbusy : r.running.isEmpty = false := by
      rw [← Bool.not_eq_true, OrdSet.isEmpty_iff_forall]
      intro hno
      rcases hwork with ⟨a, hin⟩ | ⟨a, hin⟩
      · exact hclear a (hrun a hin)
      · rw [heq, hfp] at hin
        exact hno a (hpend a hin)
    rw [workLeft, workLeft, hidle, hbusy, hb]
    simp

/-! ## whole runs -/

def ticks (outcomes : Nat → OrdMap BacklogTaskId AttemptOutcome) (r : BacklogRunner) :
    Nat → BacklogRunner
  | 0 => r
  | n + 1 => ((ticks outcomes r n).tick (outcomes n)).1

theorem ticks_workLeft (hv : input.schedulerConfig.validate = .ok ()) (h : Shape input r)
    (hp : r.paused = false) (outcomes : Nat → OrdMap BacklogTaskId AttemptOutcome)
    (ha : ∀ n, (ticks outcomes r n).stopReason = none →
      Answers (outcomes n) (ticks outcomes r n)) (n : Nat)
    (hlive : ∀ k ≤ n, (ticks outcomes r k).stopReason = none) :
    Shape input (ticks outcomes r n) ∧ (ticks outcomes r n).paused = false ∧
      (ticks outcomes r n).workLeft + n ≤ r.workLeft := by
  induction n with
  | zero => exact ⟨h, hp, Nat.le_refl _⟩
  | succ n ih =>
    obtain ⟨h1, h2, h3⟩ := ih (fun k hk => hlive k (by omega))
    have hs := hlive n (by omega)
    obtain ⟨h4, h5⟩ := tick_workLeft hv h1 hs h2 (outcomes n) (ha n hs)
      (hlive (n + 1) (by omega))
    refine ⟨h1.steps (tick_steps h1 (outcomes n)), h5, ?_⟩
    have h4' : (ticks outcomes r (n + 1)).workLeft < (ticks outcomes r n).workLeft := h4
    omega

end

/-- no silent stall, and answered runs stop within `2 * B + 1` ticks -/
theorem never_stalls (input : RunnerInput) (r0 : BacklogRunner) (hnew : new input = .ok r0) :
    (∀ calls outcomes, (r0.exec calls).stopReason = none → (r0.exec calls).paused = false →
      let r := ((r0.exec calls).tick outcomes).1
      r.stopReason.isSome ∨ (∃ t, t ∈ r.running) ∨ ∃ t, t ∈ r.pending) ∧
    ∀ outcomes : Nat → OrdMap BacklogTaskId AttemptOutcome,
      (∀ n, (ticks outcomes r0 n).stopReason = none →
        ∀ t ∈ (ticks outcomes r0 n).running, ∃ o, (outcomes n)[t]? = some o ∧ o ≠ .paused) →
      ∃ n ≤ 2 * input.attemptBudget + 1, (ticks outcomes r0 n).stopReason.isSome := by
  have hv := (new_accepted hnew).scheduler
  constructor
  · intro calls outcomes hs hp r
    cases hr : r.stopReason with
    | some => exact .inl rfl
    | none => exact .inr (tickState_alive hv (exec_shape hnew calls) hs hp outcomes hr).2.2
  · intro outcomes ha
    by_contra hno
    push Not at hno
    obtain ⟨_, _, _, hr0, _⟩ := new_spec hnew
    have hp : r0.paused = false := by rw [hr0]; rfl
    have hw : r0.workLeft = 2 * input.attemptBudget := by
      rw [hr0]
      simp [workLeft, initial]
    obtain ⟨_, _, hle⟩ := ticks_workLeft hv (new_shape hnew) hp outcomes ha
      (2 * input.attemptBudget + 1) (fun k hk => by simpa using hno k hk)
    omega

def sampleAnswers (n : Nat) : OrdMap BacklogTaskId AttemptOutcome :=
  if n = 1 then {("a", .failed .verification none none), ("b", .completed)}
  else {("a", .completed), ("b", .completed)}

theorem never_stalls_sample :
    (∃ n ≤ 2 * sampleInput.attemptBudget + 1,
      (ticks sampleAnswers sampleRunner n).stopReason.isSome) ∧
    (ticks sampleAnswers sampleRunner 4).stopReason = none ∧
    (ticks sampleAnswers sampleRunner 5).stopReason = some .backlogEmpty := by
  refine ⟨(never_stalls sampleInput sampleRunner sampleRunner_new).2 sampleAnswers
    (fun n _ t ht => ?_), by decide +kernel, by decide +kernel⟩
  have hshape : ∀ n, Shape sampleInput (ticks sampleAnswers sampleRunner n) := by
    intro n
    induction n with
    | zero => exact new_shape sampleRunner_new
    | succ n ih => exact ih.steps (tick_steps ih _)
  have hkey : t ∈ sampleInput.dag.tasks.keys := by
    have := (hshape n).running_eligible t ht
    rw [(hshape n).dag_eq] at this
    exact ExtTreeMap.mem_keys.mpr (sampleInput.dag.mem_eligible.mp this).1
  have hkeys : sampleInput.dag.tasks.keys = ["a", "b"] := by decide +kernel
  rw [hkeys] at hkey
  simp only [mem_cons, not_mem_nil, or_false] at hkey
  rw [sampleAnswers]
  split_ifs <;> rcases hkey with rfl | rfl
  · exact ⟨.failed .verification none none, by decide +kernel, by decide⟩
  · exact ⟨.completed, by decide +kernel, by decide⟩
  · exact ⟨.completed, by decide +kernel, by decide⟩
  · exact ⟨.completed, by decide +kernel, by decide⟩

end BacklogRunner
end Delivery

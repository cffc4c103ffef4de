import Orchestraitor.Delivery.RunnerSteps

/-!
# Calls as sequences of steps

The three phases of a tick, each as a sequence of elementary steps, and from them every call.

* `dispatch_steps`         the dispatch loop only starts tasks within the caps, or halts.
-/

namespace Delivery
open Base Std Relation List
namespace BacklogRunner

/-! ## the outcome loop -/

section
variable {input : RunnerInput} {r : BacklogRunner} {t : BacklogTaskId}

def withDue (r : BacklogRunner) (due : OrdSet BacklogTaskId) : BacklogRunner :=
  { r with pending := r.pending ∪ due }

variable {r' : BacklogRunner}

theorem Consumed.withDue {o : AttemptOutcome} (h : Consumed r t o r') (due : OrdSet BacklogTaskId) :
    Consumed (r.withDue due) t o (r'.withDue due) := by
  cases h with
  | completed => exact .completed
  | paused => exact .paused
  | parked _ reason ladders ho hl => exact .parked _ reason ladders ho hl
  | requeued cls ra proof event e schedules ho he hq =>
    have hq' : Requeues (r.withDue due) t cls proof e.recordFailure.attemptsAtCurrentStep event := by
      cases hq with
      | retry d h1 h2 => exact .retry d h1 h2
      | hold ms h1 h2 => exact .hold ms h1 h2
      | fix h1 => exact .fix h1
      | reprompt a h1 => exact .reprompt a h1
    have := Consumed.requeued (r := r.withDue due) cls ra proof event e schedules ho he hq'
    simpa [BacklogRunner.withDue, OrdSet.insert_union, attemptOf] using this
  | escalated cls ra proof fix e schedules ho he hf hx =>
    have := Consumed.escalated (r := r.withDue due) cls ra proof fix e schedules ho he hf hx
    simpa [BacklogRunner.withDue, OrdSet.insert_union, attemptOf] using this
  | exhausted cls ra proof fix e ho he hf hx => exact .exhausted cls ra proof fix e ho he hf hx

def Recorded (r r' : BacklogRunner) : Prop :=
  ∃ t o, r.stopReason = none ∧ r.paused = false ∧ t ∈ r.running ∧ Consumed r t o r'

theorem Recorded.step (h : Recorded r r') : Step r r' := by
  obtain ⟨t, o, hs, hp, ht, hc⟩ := h
  exact .record t o hs hp ht hc

theorem Recorded.withDue (due : OrdSet BacklogTaskId) (h : Recorded r r') :
    Recorded (r.withDue due) (r'.withDue due) := by
  obtain ⟨t, o, hs, hp, ht, hc⟩ := h
  exact ⟨t, o, hs, hp, ht, hc.withDue due⟩

theorem Recorded.inflight (h : Recorded r r') :
    (∀ a ∈ r'.running, a ∈ r.running) ∧ (∀ a ∈ r'.pending, a ∈ r.pending ∨ a ∈ r.running) := by
  obtain ⟨t, o, hs, hp, ht, hc⟩ := h
  have herase : ∀ a ∈ r.running.erase t, a ∈ r.running := fun a ha => (Shape.mem_erase ha).2
  have hinsert : ∀ a ∈ r.pending.insert t, a ∈ r.pending ∨ a ∈ r.running := by
    intro a ha
    rcases (OrdSet.mem_insert_iff _ _ _).mp ha with e | e
    · rw [e]; exact .inr ht
    · exact .inl e
  cases hc with
  | completed => exact ⟨herase, fun a ha => .inl ha⟩
  | paused => exact ⟨fun a ha => ha, fun a ha => .inl ha⟩
  | parked => exact ⟨herase, fun a ha => .inl ha⟩
  | requeued | escalated => exact ⟨herase, hinsert⟩
  | exhausted => exact ⟨herase, fun a ha => .inl ha⟩

theorem Recorded.paused_iff (h : Recorded r r') : r'.stopReason = none → r'.paused = false := by
  obtain ⟨t, o, hs, hp, ht, hc⟩ := h
  intro hn
  cases hc with
  | completed => exact hp
  | paused | parked => exact absurd hn (by simp)
  | requeued | escalated => exact hp
  | exhausted => exact absurd hn (by simp)

theorem steps_of_recorded (h : ReflTransGen Recorded r r') :
    ReflTransGen Step r r' := ReflTransGen.mono (fun _ _ => Recorded.step) _ _ h

theorem consumeAll_recorded (l : List (BacklogTaskId × AttemptOutcome)) (h : Shape input r)
    (hp : r.stopReason = none → r.paused = false) : ReflTransGen Recorded r (consumeAll l r) := by
  induction l generalizing r with
  | nil => exact .refl
  | cons p _ ih =>
    obtain ⟨t, o⟩ := p
    rw [consumeAll]
    split_ifs with h1 h2
    · exact .refl
    · have hs : r.stopReason = none := by simpa using h1
      obtain ⟨e, he⟩ := h.ladder_running h2
      have hrec : Recorded r ({ r with running := r.running.erase t }.consumeOutcome t o) :=
        ⟨t, o, hs, hp hs, h2, consumeOutcome_spec h2 hs he o⟩
      exact .head hrec (ih (h.step hrec.step) hrec.paused_iff)
    · exact ih h hp

theorem recorded_inflight (h : ReflTransGen Recorded r r') :
    (∀ a ∈ r'.running, a ∈ r.running) ∧ (∀ a ∈ r'.pending, a ∈ r.pending ∨ a ∈ r.running) := by
  induction h with
  | refl => exact ⟨fun a ha => ha, fun a ha => .inl ha⟩
  | tail _ hs ih =>
    obtain ⟨h1, h2⟩ := hs.inflight
    refine ⟨fun a ha => ih.1 a (h1 a ha), fun a ha => ?_⟩
    rcases h2 a ha with e | e
    · exact ih.2 a e
    · exact .inr (ih.1 a e)

theorem recorded_paused (h : ReflTransGen Recorded r r')
    (hp : r.stopReason = none → r.paused = false) : r'.stopReason = none → r'.paused = false := by
  cases h with
  | refl => exact hp
  | tail _ hs => exact hs.paused_iff

/-! ## dispatch and settling -/

theorem mem_startable {due : OrdSet BacklogTaskId} : t ∈ r.startable due ↔ t ∈ due ∨
      (t ∈ r.dag.eligible r.completed ∧ t ∉ r.blocked ∧ t ∉ r.running ∧ t ∉ r.pending) := by
  have key : ∀ (l : List BacklogTaskId) (s : OrdSet BacklogTaskId),
      t ∈ l.foldl (fun s id =>
        if id ∉ r.blocked ∧ id ∉ r.running ∧ id ∉ r.pending then s.insert id else s) s ↔
      t ∈ s ∨ (t ∈ l ∧ t ∉ r.blocked ∧ t ∉ r.running ∧ t ∉ r.pending) := by
    intro l
    induction l with
    | nil => simp
    | cons a l ih =>
      intro s
      rw [foldl_cons, ih]
      by_cases e : t = a
      · subst e
        split_ifs with hc
        · simp [hc]
        · simp [hc]
      · have e' : ¬ a = t := fun x => e x.symm
        split_ifs <;> simp [e, e']
  exact key _ _

theorem dispatch_steps (sel l : List BacklogTaskId) (h : Shape input r)
    (hs : r.stopReason = none) (hp : r.paused = false) (hnd : l.Nodup)
    (hsel : ∀ t ∈ l, t ∈ sel → t ∈ r.dag.eligible r.completed ∧ t ∉ r.running ∧ t ∉ r.pending)
    (hcaps : Caps r.scheduler.config r.dag (r.running.toList ++ l.filter (· ∈ sel))) :
    ReflTransGen Step r (dispatch sel l r) := by
  induction l generalizing r with
  | nil => exact .refl
  | cons t rest ih =>
    obtain ⟨hnt, hndr⟩ := nodup_cons.mp hnd
    rw [dispatch]
    by_cases hts : t ∈ sel
    · rw [if_neg (not_not.mpr hts)]
      by_cases hb : r.budgetRemaining = 0
      · have := Step.halt [.budgetExhausted] .budgetExhausted hs (.budget hb)
        rw [if_pos hb, setStop_eq (by exact hs)]
        refine .single ?_
        simpa [pushEvent] using this
      · rw [if_neg hb]
        obtain ⟨he, hr, hq⟩ := hsel t mem_cons_self hts
        rw [filter_cons_of_pos (by simpa using hts)] at hcaps
        have hperm := OrdSet.toList_insert_perm hr
        -- the caps of this start and of the ones after it
        have hnext : Caps r.scheduler.config r.dag
            ((r.running.insert t).toList ++ rest.filter (· ∈ sel)) := by
          refine hcaps.of_subperm (List.Perm.subperm ?_)
          exact (hperm.append_right _).trans perm_middle.symm
        have hone : Caps r.scheduler.config r.dag (r.running.insert t).toList :=
          hnext.of_subperm (sublist_append_left _ _).subperm
        have hstep : Step r (r.start t) := .start t hs hp he hr hq (by omega) hone
        refine .head hstep (ih (h.step hstep) hs hp hndr (fun a ha has => ?_) hnext)
        obtain ⟨h3, h4, h5⟩ := hsel a (mem_cons_of_mem _ ha) has
        refine ⟨h3, fun hm => ?_, h5⟩
        rcases (OrdSet.mem_insert_iff _ _ _).mp hm with e | e
        · exact hnt (e ▸ ha)
        · exact h4 e
    · rw [if_pos hts]
      refine ih h hs hp hndr (fun a ha => hsel a (mem_cons_of_mem _ ha)) ?_
      rwa [filter_cons_of_neg (by simpa using hts)] at hcaps

theorem settle_steps : ReflTransGen Step r r.settle := by
  rw [settle]
  split_ifs with h1 h2 h3
  · have hs : r.stopReason = none := by simpa using h1.1
    rw [setStop_eq hs]
    exact .single (Step.halt [] .backlogEmpty hs (.empty h2))
  · have hs : r.stopReason = none := by simpa using h1.1
    rw [setStop_eq hs]
    refine .single (Step.halt [] .noEligibleTasks hs (.noEligible h2 (fun t ht => ?_)))
    rw [length_eq_zero_iff, filter_eq_nil_iff] at h3
    simpa using h3 t ht
  · exact .refl
  · exact .refl

/-! ## every call is a sequence of steps -/

def consumedState (r : BacklogRunner) (outcomes : OrdMap BacklogTaskId AttemptOutcome) :
    BacklogRunner := consumeAll outcomes.toList { r with pending := ∅ }

theorem tickState_eq (hs : r.stopReason = none) (hp : r.paused = false)
    (outcomes : OrdMap BacklogTaskId AttemptOutcome) : r.tickState outcomes =
      if (r.consumedState outcomes).stopReason.isSome then
        (r.consumedState outcomes).withDue r.pending
      else settle (dispatch (r.consumedState outcomes).selection
        ((r.consumedState outcomes).startable r.pending).toList (r.consumedState outcomes)) := by
  rw [tickState, if_neg (by simp [hs]), if_neg (by simp [hp])]
  rfl

theorem Step.shedAll (hs : r.stopReason = none) : Step r { r with pending := ∅ } :=
  .shed ∅ hs (by simp)

theorem consumedState_spec (h : Shape input r) (hs : r.stopReason = none)
    (hp : r.paused = false) (outcomes : OrdMap BacklogTaskId AttemptOutcome) :
    ReflTransGen Recorded { r with pending := ∅ } (r.consumedState outcomes) ∧
      Shape input (r.consumedState outcomes) ∧
      (∀ a ∈ (r.consumedState outcomes).pending, a ∈ r.running) ∧
      ((r.consumedState outcomes).stopReason = none →
        (r.consumedState outcomes).paused = false) := by
  have h0 : Shape input { r with pending := ∅ } := h.step (.shedAll hs)
  have hrec : ReflTransGen Recorded { r with pending := ∅ } (r.consumedState outcomes) :=
    consumeAll_recorded outcomes.toList h0 (fun _ => hp)
  refine ⟨hrec, h0.steps (steps_of_recorded hrec), fun a ha => ?_, recorded_paused hrec (fun _ => hp)⟩
  exact ((recorded_inflight hrec).2 a ha).resolve_left (by simp)

theorem dispatch_ready (h : Shape input r) {due : OrdSet BacklogTaskId}
    (hdue : ∀ a ∈ due, a ∉ r.pending) : (∀ t ∈ (r.startable due).toList, t ∈ r.selection →
      t ∈ r.dag.eligible r.completed ∧ t ∉ r.running ∧ t ∉ r.pending) ∧
    Caps r.scheduler.config r.dag
      (r.running.toList ++ (r.startable due).toList.filter (· ∈ r.selection)) := by
  constructor
  · intro t ht hsel
    obtain ⟨h1, h2⟩ := ParallelScheduler.mem_select _ _ hsel
    refine ⟨h1, fun hm => h2 (ExtTreeSet.mem_toList.mpr hm), ?_⟩
    rcases mem_startable.mp (ExtTreeSet.mem_toList.mp ht) with e | e
    · exact hdue t e
    · exact e.2.2.2
  · have hall := r.scheduler.select_caps r.dag r.completed r.running.toList 0 h.caps
    refine hall.of_subperm ((subperm_append_left _).mpr ?_)
    refine subperm_of_subset ((OrdSet.nodup_toList _).filter _) (fun a ha => ?_)
    exact of_decide_eq_true (mem_filter.mp ha).2

theorem tick_steps (h : Shape input r) (outcomes : OrdMap BacklogTaskId AttemptOutcome) :
    ReflTransGen Step r (r.tickState outcomes) := by
  cases hs : r.stopReason with
  | some => rw [tickState, hs]; exact .refl
  | none =>
    cases hp : r.paused with
    | true =>
      rw [tickState, if_neg (by simp [hs]), if_pos hp, setStop_eq hs]
      exact .single (Step.halt [] .paused hs (.paused hp))
    | false =>
      obtain ⟨hrec, hshape, hpend, hpause⟩ := consumedState_spec h hs hp outcomes
      rw [tickState_eq hs hp]
      split_ifs with hstop
      · -- the due tasks come back: the same outcomes, recorded with them still pending
        have hlift : ReflTransGen Recorded (({ r with pending := ∅ } : BacklogRunner).withDue
            r.pending) ((r.consumedState outcomes).withDue r.pending) :=
          hrec.lift (fun q => q.withDue r.pending) (fun _ _ => Recorded.withDue _)
        have hr : ({ r with pending := ∅ } : BacklogRunner).withDue r.pending = r := by
          simp [BacklogRunner.withDue, OrdSet.empty_union]
        rw [hr] at hlift
        exact steps_of_recorded hlift
      · have hs' : (r.consumedState outcomes).stopReason = none := by simpa using hstop
        have hdue : ∀ a ∈ r.pending, a ∉ (r.consumedState outcomes).pending := fun a ha hm =>
          h.running_pending a (hpend a hm) ha
        obtain ⟨hsel, hcaps⟩ := dispatch_ready hshape hdue
        have h1 : ReflTransGen Step r (r.consumedState outcomes) :=
          .head (.shedAll hs) (steps_of_recorded hrec)
        have h2 := dispatch_steps _ _ hshape hs' (hpause hs') (OrdSet.nodup_toList _) hsel hcaps
        exact (h1.trans h2).trans settle_steps

theorem run_steps (outcomes : OrdMap BacklogTaskId AttemptOutcome) (maxTicks : Nat)
    (h : Shape input r) : ReflTransGen Step r (run outcomes maxTicks r).1 := by
  induction maxTicks generalizing r with
  | zero => exact .refl
  | succ n ih =>
    rw [run]
    have h1 : ReflTransGen Step r (r.tick outcomes).1 := tick_steps h outcomes
    split_ifs with hs
    · exact .refl
    · dsimp only
      split_ifs
      · exact h1
      · exact h1.trans (ih (h.steps h1))

theorem call_steps (h : Shape input r) (c : Call) : ReflTransGen Step r (r.call c) := by
  cases c with
  | tick outcomes => exact tick_steps h outcomes
  | run outcomes maxTicks => exact run_steps outcomes maxTicks h
  | pause =>
    show ReflTransGen Step r r.pause
    rw [pause]
    split_ifs with hp
    · exact .refl
    · exact .single (.pause (by simpa using hp))
  | resume =>
    show ReflTransGen Step r r.resume
    rw [resume]
    cases hp : r.paused with
    | false => exact .refl
    | true =>
      refine .single ?_
      have := Step.resume hp
      simp only [Bool.not_true, Bool.false_eq_true, ↓reduceIte, pushEvent]
      split_ifs with e
      · simpa [e] using this
      · simpa [e] using this

theorem exec_steps (h : Shape input r) (calls : List Call) :
    ReflTransGen Step r (r.exec calls) := by
  induction calls generalizing r with
  | nil => exact .refl
  | cons c _ ih =>
    have h1 := call_steps h c
    exact h1.trans (ih (h.steps h1))

end

/-! ## construction and the induction rule -/

section
variable {input : RunnerInput} {r0 : BacklogRunner}

theorem seedLadders_spec {policy : EscalationPolicy} {e : EscalationState}
    (he : EscalationState.new policy = .ok e) (l : List BacklogTaskId)
    (map : OrdMap BacklogTaskId EscalationState) : ∃ out, seedLadders policy map l = .ok out ∧
      ∀ t, out[t]? = if t ∈ l then some e else map[t]? := by
  induction l generalizing map with
  | nil => exact ⟨map, rfl, fun t => by simp⟩
  | cons id rest ih =>
    obtain ⟨out, hout, hget⟩ := ih (map.insert id e)
    refine ⟨out, by rw [seedLadders, he]; exact hout, fun t => ?_⟩
    rw [hget]
    by_cases h1 : t ∈ rest <;> by_cases h2 : t = id <;> simp [h1]

def initial (input : RunnerInput) (ladders : OrdMap BacklogTaskId EscalationState) :
    BacklogRunner where
  dag := input.dag
  config := input.config
  scheduler := ⟨input.schedulerConfig⟩
  budgetRemaining := input.attemptBudget
  maxRepromptAttempts := input.maxRepromptAttempts
  maxAttemptsPerStep := input.maxAttemptsPerStep
  journal := []
  completed := ∅
  blocked := ∅
  running := ∅
  pending := ∅
  attempts := ∅
  retrySchedules := ∅
  escalation := ladders
  paused := false
  stopReason := none

/-- the inputs `new` accepts -/
structure Accepted (input : RunnerInput) : Prop where
  config : input.config.validate = .ok ()
  scheduler : input.schedulerConfig.validate = .ok ()
  policy : input.escalationPolicy.validate = .ok ()

theorem new_eq (h : Accepted input) : ∃ e ladders,
    EscalationState.new input.escalationPolicy = .ok e ∧ new input = .ok (initial input ladders) ∧
      ∀ t, ladders[t]? = if t ∈ input.dag.tasks then some e else none := by
  obtain ⟨e, he⟩ := EscalationState.new_ok h.policy
  obtain ⟨ladders, hl, hget⟩ := seedLadders_spec he input.dag.tasks.keys ∅
  refine ⟨e, ladders, he, ?_, fun t => ?_⟩
  · rw [new, h.config, h.scheduler, h.policy, hl]
    rfl
  · rw [hget]
    simp only [ExtTreeMap.mem_keys, ExtTreeMap.getElem?_empty]

theorem new_accepted (h : new input = .ok r0) : Accepted input := by
  unfold new at h
  split at h
  · exact absurd h (by simp)
  · next hc =>
    split at h
    · exact absurd h (by simp)
    · next hs =>
      split at h
      · exact absurd h (by simp)
      · next hp => exact ⟨hc, hs, hp⟩

theorem new_spec (h : new input = .ok r0) : ∃ e ladders,
    EscalationState.new input.escalationPolicy = .ok e ∧ r0 = initial input ladders ∧
      ∀ t, ladders[t]? = if t ∈ input.dag.tasks then some e else none := by
  obtain ⟨e, ladders, he, hn, hget⟩ := new_eq (new_accepted h)
  exact ⟨e, ladders, he, Except.ok.inj (h.symm.trans hn), hget⟩

theorem new_shape (h : new input = .ok r0) : Shape input r0 := by
  obtain ⟨e, ladders, he, rfl, hget⟩ := new_spec h
  refine ⟨rfl, rfl, rfl, rfl, fun t ht => ⟨e, ?_⟩, fun t x hx => ?_, ?_, ?_, ?_, ?_, ?_, ?_⟩
  · show ladders[t]? = _
    rw [hget]
    exact if_pos ht
  · change ladders[t]? = _ at hx
    rw [hget] at hx
    split_ifs at hx
    rw [← Option.some.inj hx]
    exact (EscalationState.new_level he).1
  · exact fun t ht => absurd ht ExtTreeSet.not_mem_empty
  · exact fun t ht => absurd ht ExtTreeSet.not_mem_empty
  · exact fun t ht => absurd ht ExtTreeSet.not_mem_empty
  · exact fun t ht => absurd ht ExtTreeSet.not_mem_empty
  · intro _ _ hb
    simp [initial] at hb
  · exact Caps.nil

theorem exec_induction {P : BacklogRunner → Prop} (hnew : new input = .ok r0) (h0 : P r0)
    (hstep : ∀ r r', Shape input r → P r → Step r r' → P r') (calls : List Call) :
    P (r0.exec calls) := by
  have hsteps := exec_steps (new_shape hnew) calls
  generalize r0.exec calls = r at hsteps ⊢
  have key : Shape input r ∧ P r := by
    induction hsteps with
    | refl => exact ⟨new_shape hnew, h0⟩
    | tail _ hs ih => exact ⟨ih.1.step hs, hstep _ _ ih.1 ih.2 hs⟩
  exact key.2

theorem exec_shape (hnew : new input = .ok r0) (calls : List Call) :
    Shape input (r0.exec calls) := (new_shape hnew).steps (exec_steps (new_shape hnew) calls)

end

/-! ## a backlog of two tasks, the second waiting for the first -/

def sampleTask (id : BacklogTaskId) (deps : List BacklogTaskId) : TaskMetadata where
  id := id
  specRefs := ["9.33.3"]
  title := "task"
  objective := "objective"
  acceptanceCriteria := ["green"]
  dependencies := deps
  domain := "backend"
  risk := .low
  dataSensitivity := .internal
  expectedFiles := []
  requiredVerification := ["nextest-workspace"]
  requiredReviewerDomains := ["backend"]
  retryPolicy := "default"
  completionEvidence := [.verification "nextest-workspace"]

def sampleInput : RunnerInput where
  dag := (TaskDag.new [sampleTask "b" ["a"], sampleTask "a" []]).toOption.get (by decide)
  config := {}
  schedulerConfig := {}
  attemptBudget := 4
  maxRepromptAttempts := 2
  maxAttemptsPerStep := 2
  escalationPolicy := {}

def sampleRunner : BacklogRunner := (new sampleInput).toOption.get (by decide)

theorem sampleRunner_new : new sampleInput = .ok sampleRunner := ok_of_isSome _

end BacklogRunner
end Delivery

import Orchestraitor.Delivery.RunnerExec

/-!
# Never a blind retry

A retry or a hold directly follows the record of a failure that may be retried.  An outcome that
parks its task (denied, refused, approval required) stops the run in the same tick, and nothing is
ever started after it.
-/

namespace Delivery
open Base Std

/-- `RetryScheduled` or `RetryHeld` of `t` -/
def RunnerEvent.Retries (t : BacklogTaskId) (e : RunnerEvent) : Prop :=
  (∃ ms, e = .retryScheduled t ms) ∨ ∃ ms, e = .retryHeld t ms

theorem AttemptOutcome.parks_stop {o : AttemptOutcome} {reason : BlockReason}
    (h : o.parks = some reason) : reason.stop = .securityBlock ∨ reason.stop = .approvalRequired := by
  unfold AttemptOutcome.parks at h
  split at h <;> first
    | (cases h; exact .inl rfl)
    | (cases h; exact .inr rfl)
    | exact absurd h (by simp)

namespace BacklogRunner

/-- a retry directly follows the record of a retryable failure of the same task -/
def RetryJustified (pre : List RunnerEvent) (e : RunnerEvent) : Prop :=
  ∀ t, e.Retries t → ∃ before a cls ra proof,
    pre = before ++ [.attemptRecorded t a (.failed cls ra proof)] ∧ cls.Retryable proof

/-- nothing starts after an outcome that parks its task -/
def StartAllowed (pre : List RunnerEvent) (e : RunnerEvent) : Prop :=
  ∀ t, e = .started t → ∀ s a o, .attemptRecorded s a o ∈ pre → o.parks = none

/-- retries and starts are justified by the journal before them -/
structure Disciplined (r : BacklogRunner) : Prop where
  retries : EachSplit RetryJustified r.journal
  starts : EachSplit StartAllowed r.journal
  parked : ∀ s a o reason, .attemptRecorded s a o ∈ r.journal → o.parks = some reason →
    r.stopReason = some reason.stop

section
variable {input : RunnerInput} {r r' : BacklogRunner} {t : BacklogTaskId} {o : AttemptOutcome}

theorem RetryJustified.of_not {pre : List RunnerEvent} {e : RunnerEvent}
    (h : ∀ t, ¬ e.Retries t) : RetryJustified pre e := fun t ht => absurd ht (h t)

theorem Disciplined.extend (h : Disciplined r) (es : List RunnerEvent)
    (hr : ∀ e ∈ es, ∀ t, ¬ e.Retries t) (hs : ∀ t, .started t ∉ es) :
    EachSplit RetryJustified (r.journal ++ es) ∧ EachSplit StartAllowed (r.journal ++ es) := by
  refine ⟨h.retries.append ?_, h.starts.append ?_⟩
  · intro _ e _ heq
    exact RetryJustified.of_not (hr e (by rw [heq]; simp))
  · intro _ _ _ heq t ht
    exact absurd (show .started t ∈ es by rw [heq, ht]; simp) (hs t)

theorem Disciplined.consumed_retries (h : Disciplined r) (hc : Consumed r t o r') :
    EachSplit RetryJustified r'.journal := by
  have key : ∀ es : List RunnerEvent, (∀ e ∈ es, ∀ t, ¬ e.Retries t) →
      EachSplit RetryJustified (r.journal ++ es) := fun es hes =>
    h.retries.append (fun pre e post heq => RetryJustified.of_not (hes e (by rw [heq]; simp)))
  cases hc with
  | completed | paused | parked => exact key _ (by simp [RunnerEvent.Retries])
  | requeued cls ra proof event _ _ _ _ hq =>
    -- the record first, then the one event that may be a retry of it
    show EachSplit RetryJustified (r.journal ++ [_, event])
    rw [List.append_cons]
    refine (key [_] (by simp [RunnerEvent.Retries])).concat (fun a ha => ?_)
    have hcls : a = t ∧ cls.Retryable proof := by
      rcases ha with ⟨ms, rfl⟩ | ⟨ms, rfl⟩
      · cases hq with
        | retry _ hcls => exact ⟨rfl, hcls⟩
      · cases hq with
        | hold _ hcls => exact ⟨rfl, .inr (.inl hcls)⟩
    obtain ⟨rfl, hcls⟩ := hcls
    exact ⟨r.journal, r.attemptOf a, cls, ra, proof, rfl, hcls⟩
  | escalated _ _ _ _ _ _ _ _ hf =>
    refine key _ ?_
    rcases hf with rfl | rfl <;> simp [RunnerEvent.Retries]
  | exhausted _ _ _ _ _ _ _ hf =>
    refine key _ ?_
    rcases hf with rfl | rfl <;> simp [RunnerEvent.Retries]

theorem Disciplined.consumed_parked (h : Disciplined r) (hs : r.stopReason = none)
    (hc : Consumed r t o r') {s : BacklogTaskId} {a : Nat} {o' : AttemptOutcome}
    {reason : BlockReason} (hm : .attemptRecorded s a o' ∈ r'.journal)
    (hp : o'.parks = some reason) : r'.stopReason = some reason.stop := by
  rcases hc.mem_journal hm with e | e | e
  · have := h.parked s a o' reason e hp
    rw [hs] at this
    exact absurd this (by simp)
  · cases e
    cases hc with
    | parked _ _ _ ho => rw [Option.some.inj (hp.symm.trans ho)]
    | completed | paused => exact absurd hp (by simp [AttemptOutcome.parks])
    | requeued _ _ _ _ _ _ ho => rw [ho] at hp; exact absurd hp (by simp)
    | escalated _ _ _ _ _ _ ho => rw [ho] at hp; exact absurd hp (by simp)
    | exhausted _ _ _ _ _ ho => rw [ho] at hp; exact absurd hp (by simp)
  · exact absurd e (by simp [RunnerEvent.isNote])

theorem Disciplined.control (h : Disciplined r) {es : List RunnerEvent}
    (hes : ∀ e ∈ es, e = .paused ∨ e = .resumed ∨ e = .budgetExhausted ∨ ∃ x, e = .stopped x)
    (p : Bool) (stop : Option StopReason)
    (hstop : ∀ reason : BlockReason, r.stopReason = some reason.stop → stop = some reason.stop) :
    Disciplined { r with journal := r.journal ++ es, paused := p, stopReason := stop } := by
  have hno : ∀ s a o, .attemptRecorded s a o ∉ es := by
    intro s a o hm
    rcases hes _ hm with e | e | e | ⟨_, e⟩ <;> exact absurd e (by simp)
  obtain ⟨h1, h2⟩ := h.extend es
    (fun e he t => by
      rcases hes e he with rfl | rfl | rfl | ⟨x, rfl⟩ <;> simp [RunnerEvent.Retries])
    (fun t hm => by rcases hes _ hm with e | e | e | ⟨_, e⟩ <;> exact absurd e (by simp))
  refine ⟨h1, h2, fun s a o reason hm hp => ?_⟩
  rcases List.mem_append.mp hm with e | e
  · exact hstop reason (h.parked s a o reason e hp)
  · exact absurd e (hno s a o)

theorem Disciplined.step (h : Disciplined r) (hst : Step r r') : Disciplined r' := by
  cases hst with
  | record _ _ hs _ _ hc =>
    refine ⟨h.consumed_retries hc, ?_, fun s a o' reason => h.consumed_parked hs hc⟩
    refine hc.eachSplit h.starts ?_ ?_
    · exact fun s hs' => absurd hs' (by simp)
    · intro _ _ he _ hs'
      rw [hs'] at he
      exact absurd he (by simp [RunnerEvent.isNote])
  | shed => exact { h with }
  | start _ hs hp =>
    refine ⟨h.retries.concat (RetryJustified.of_not (by simp [RunnerEvent.Retries])),
      h.starts.concat (fun s hs' x a o hm => ?_), fun s a o reason hm hp => ?_⟩
    · -- an unstopped runner has recorded no parking outcome
      cases hx : o.parks with
      | none => rfl
      | some reason =>
        have := h.parked x a o reason hm hx
        rw [hs] at this
        exact absurd this (by simp)
    · refine h.parked s a o reason ?_ hp
      simpa [BacklogRunner.start, pushEvent] using hm
  | halt _ _ hs hh =>
    refine h.control (fun e he => ?_) r.paused _ (fun b hb => absurd hb (by simp [hs]))
    exact hh.control he
  | pause => exact h.control (by simp) true r.stopReason (fun _ hb => hb)
  | resume =>
    refine h.control (by simp) false _ (fun b hb => ?_)
    rw [hb, if_neg (by simpa using b.stop_ne_paused)]

end

theorem Disciplined.parks_stop {r : BacklogRunner} (h : Disciplined r) {t : BacklogTaskId}
    {a : Nat} {o : AttemptOutcome} (hm : .attemptRecorded t a o ∈ r.journal) (hp : o.parks ≠ none) :
    r.stopReason = some .securityBlock ∨ r.stopReason = some .approvalRequired := by
  obtain ⟨reason, hreason⟩ := Option.ne_none_iff_exists'.mp hp
  rw [h.parked t a o reason hm hreason, Option.some.injEq, Option.some.injEq]
  exact AttemptOutcome.parks_stop hreason

/-- retries only follow retryable failures; a parking outcome ends the run in its own tick -/
theorem retry_discipline (input : RunnerInput) (r0 : BacklogRunner)
    (hnew : new input = .ok r0) (calls : List Call) :
    let r := r0.exec calls
    (∀ pre e post t, r.journal = pre ++ e :: post → e.Retries t → ∃ before a cls ra proof,
      pre = before ++ [.attemptRecorded t a (.failed cls ra proof)] ∧ cls.Retryable proof) ∧
    (∀ pre t a o post, r.journal = pre ++ .attemptRecorded t a o :: post → o.parks ≠ none →
      (r.stopReason = some .securityBlock ∨ r.stopReason = some .approvalRequired) ∧
        ∀ s, .started s ∉ post) ∧
    ∀ outcomes t a o, .attemptRecorded t a o ∈ (r.tick outcomes).2 → o.parks ≠ none →
      (r.tick outcomes).1.stopReason = some .securityBlock ∨
        (r.tick outcomes).1.stopReason = some .approvalRequired := by
  intro r
  obtain ⟨_, _, _, hr0, _⟩ := new_spec hnew
  have h0 : Disciplined r0 := by
    rw [hr0]
    exact ⟨EachSplit.nil _, EachSplit.nil _, fun s a o reason hm => absurd hm List.not_mem_nil⟩
  have hall : ∀ cs, Disciplined (r0.exec cs) :=
    exec_induction hnew h0 (fun _ _ _ => Disciplined.step)
  have h : Disciplined r := hall calls
  refine ⟨fun pre e post t heq => h.retries pre e post heq t, ?_, ?_⟩
  · intro pre t a o _ heq hp
    have hmem : .attemptRecorded t a o ∈ r.journal := by rw [heq]; simp
    refine ⟨h.parks_stop hmem hp, fun s hs => ?_⟩
    obtain ⟨p1, p2, rfl⟩ := List.append_of_mem hs
    refine hp (h.starts (pre ++ .attemptRecorded t a o :: p1) _ p2 ?_ s rfl t a o (by simp))
    rw [heq]
    simp
  · intro outcomes t a o hm hp
    have h' := hall (calls ++ [.tick outcomes])
    rw [exec_concat] at h'
    exact h'.parks_stop (List.mem_of_mem_drop hm) hp

def deniedAfterRetry : List Call :=
  [.tick ∅, .tick {("a", .failed .rateLimit none none)}, .tick ∅, .tick {("a", .policyDenied)},
    .resume, .tick ∅]

theorem retry_discipline_sample :
    (sampleRunner.exec deniedAfterRetry).journal = [.started "a",
        .attemptRecorded "a" 1 (.failed .rateLimit none none), .retryScheduled "a" 200,
        .started "a", .attemptRecorded "a" 2 .policyDenied, .blocked "a" .securityBlock,
        .stopped .securityBlock] ∧
      ∀ s, .started s ∉ [RunnerEvent.blocked "a" .securityBlock, .stopped .securityBlock] := by
  have hj : (sampleRunner.exec deniedAfterRetry).journal = [.started "a",
      .attemptRecorded "a" 1 (.failed .rateLimit none none), .retryScheduled "a" 200,
      .started "a"] ++ .attemptRecorded "a" 2 .policyDenied ::
        [.blocked "a" .securityBlock, .stopped .securityBlock] := by
    decide +kernel
  exact ⟨hj, ((retry_discipline sampleInput sampleRunner sampleRunner_new deniedAfterRetry).2.1
    _ _ _ _ _ hj (by decide)).2⟩

end BacklogRunner
end Delivery

import Orchestraitor.Campaign.LoopRows
import Orchestraitor.Campaign.RetryHistory

/-!
# The retry guardrails over all invocations

The history of every task in the run store stays `Tame` through the steps of an invocation (`Kept`)
and so through every sequence of invocations that share the store (`Shared`), crash recovery between
them included.
-/

namespace Campaign
open Base CallState List LoopRunStore

namespace LoopRunStore

def history (store : LoopRunStore) (taskId : String) : List RunRow :=
  store.rows.filter (·.taskId == taskId)

def marks (store : LoopRunStore) (taskId : String) : List Mark :=
  (store.history taskId).map RunRow.mark

def attempts (store : LoopRunStore) (taskId : String) : Nat :=
  store.retry[taskId]?.elim 0 (·.attemptsTotal)

def backoff (store : LoopRunStore) (taskId : String) : Option Nat :=
  store.retry[taskId]?.bind (·.backoffUntilSecs)

section
variable {store : LoopRunStore} {taskId task : String}

variable {row : RunRow} {u : RowUpdate} {guardrails : GuardrailsSettings}

theorem mem_history : row ∈ store.history taskId ↔ row ∈ store.rows ∧ row.taskId = taskId := by
  simp [history]

theorem marks_congr {store' : LoopRunStore}
    (h : store'.rows.map (fun row => (row.taskId, row.mark)) =
      store.rows.map fun row => (row.taskId, row.mark)) (taskId : String) :
    store'.marks taskId = store.marks taskId := by
  have hmarks : ∀ s : LoopRunStore, s.marks taskId =
      ((s.rows.map fun row => (row.taskId, row.mark)).filter (·.1 == taskId)).map Prod.snd := by
    intro s
    rw [filter_map, map_map]
    rfl
  rw [hmarks, hmarks, h]

theorem history_updateRunning (hu : ∀ row, (u.set row).taskId = row.taskId) (store : LoopRunStore)
    (p : RunRow → Bool) (taskId : String) :
    (store.updateRunning p u).history taskId = (store.history taskId).map
      fun row => if p row && row.status == .running then u.set row else row := by
  unfold history updateRunning
  rw [filter_map]
  congr 1
  refine filter_congr fun row _ => ?_
  simp only [Function.comp_apply]
  split_ifs
  · rw [hu]
  · rfl

theorem history_finish {before : List RunRow} (hu : ∀ row, (u.set row).taskId = row.taskId)
    (hlast : store.history taskId = before ++ [row]) (hrow : row.status = .running) :
    (store.updateRunning (·.id == row.id) u).history taskId = before ++ [u.set row] := by
  have hsorted : (before ++ [row]).Pairwise (·.id < ·.id) := hlast ▸ store.ids_sorted.filter _
  rw [history_updateRunning hu, hlast, map_append]
  congr 1
  · refine (map_congr_left fun old hold => ?_).trans (map_id _)
    have hlt := (pairwise_append.mp hsorted).2.2 old hold row mem_cons_self
    have hne : ¬ old.id = row.id := Nat.ne_of_lt hlt
    simp [hne]
  · simp [hrow]

theorem history_finish_other (hu : ∀ row, (u.set row).taskId = row.taskId) (hrow : row ∈ store.rows)
    (hne : row.taskId ≠ task) :
    (store.updateRunning (·.id == row.id) u).history task = store.history task := by
  rw [history_updateRunning hu]
  refine (map_congr_left fun old hold => ?_).trans (map_id _)
  obtain ⟨hold, htask⟩ := mem_history.mp hold
  have hid : ¬ old.id = row.id := fun hid => hne (eq_of_id hold hrow hid ▸ htask)
  simp [hid]

theorem exec_recoverRunningRows (store : LoopRunStore) (nowSecs : Nat) :
    (store.exec (.recoverRunningRows nowSecs)).2 = store ∨
      (store.exec (.recoverRunningRows nowSecs)).2 = store.updateRunning (fun _ => true)
        (finishUpdate .orphaned nowSecs
          "restart-recovery: supervisor did not reach a terminal status") := by
  simp only [exec]
  split_ifs
  · exact .inr rfl
  · exact .inl rfl

/-! ## the two columns -/

theorem attempts_outcome (guardrails : GuardrailsSettings) (status : RunRowStatus)
    (cls : String × Bool) (now : Nat) :
    (store.outcome guardrails taskId status cls now).attempts task =
      store.attempts task + if task = taskId ∧ status.isRetryable = true then 1 else 0 := by
  cases status with
  | failed | stalled | timedOut =>
    by_cases h : task = taskId
    · subst h
      cases hold : store.retry[task]? <;>
        simp [outcome, recordFailure, attempts, failedOnce, hold, RunRowStatus.isRetryable]
    · simp [outcome, recordFailure, attempts, h]
  | completed =>
    unfold outcome recordSuccess attempts
    cases hold : store.retry[taskId]? with
    | none => simp [RunRowStatus.isRetryable]
    | some =>
      by_cases h : task = taskId
      · subst h
        simp [cleared, hold, RunRowStatus.isRetryable]
      · simp [h]
  | running | abortedShutdown | stuck | orphaned | paused => simp [outcome, RunRowStatus.isRetryable]

theorem backoff_outcome_other {status : RunRowStatus} {cls : String × Bool} {now : Nat}
    (h : task ≠ taskId) :
    (store.outcome guardrails taskId status cls now).backoff task = store.backoff task := by
  cases status with
  | failed | stalled | timedOut => simp [outcome, recordFailure, backoff, h]
  | completed =>
    unfold outcome recordSuccess backoff
    cases store.retry[taskId]? with
    | none => rfl
    | some => simp [h]
  | running | abortedShutdown | stuck | orphaned | paused => rfl

theorem backoff_outcome {status : RunRowStatus} {cls : String × Bool} {now : Nat}
    (h : status.isRetryable = true) :
    (store.outcome guardrails taskId status cls now).backoff taskId =
      LoopRunner.backoffUntil guardrails now := by
  cases status with
  | failed | stalled | timedOut =>
    cases hold : store.retry[taskId]? <;> simp [outcome, recordFailure, backoff, failedOnce, hold]
  | completed | running | abortedShutdown | stuck | orphaned | paused => cases h

theorem exhausted_iff (hm : 0 < guardrails.maxTaskAttempts) :
    store.exhausted guardrails taskId = true ↔
      guardrails.maxTaskAttempts ≤ store.attempts taskId := by
  unfold exhausted retryState attempts
  cases store.retry[taskId]? with
  | none => simp; omega
  | some => simp [hm]

end

end LoopRunStore

/-! ## the scan -/

/-- a retry state for which a task has to wait, or is given up -/
def TaskRetryState.Blocks (guardrails : GuardrailsSettings) (now : Nat) (row : TaskRetryState) : Prop :=
  (0 < guardrails.maxTaskAttempts ∧ guardrails.maxTaskAttempts ≤ row.attemptsTotal) ∨
    (guardrails.taskRetryBackoff ≠ 0 ∧ row.backoffUntilSecs.any (now < ·) = true)

variable {guardrails : GuardrailsSettings} {now b m d : Nat} {r : LoopRunner} {store : LoopRunStore}
  {k : Seen} {trace : List (Sigma Answer)}

theorem scan_excludes {row : TaskRetryState} (h : row.Blocks guardrails now)
    (x : LoopRunner.TaskExclusions) : row.taskId ∈ (x.scan guardrails now row).excluded := by
  unfold LoopRunner.TaskExclusions.scan
  split_ifs with hin hattempts hbackoff
  · simpa using hin
  · simp
  · simp
  · exact absurd h (not_or.mpr ⟨hattempts, hbackoff⟩)

theorem foldl_scan_excludes {row : TaskRetryState} (h : row.Blocks guardrails now)
    {states : List TaskRetryState} (hrow : row ∈ states) (x : LoopRunner.TaskExclusions) :
    row.taskId ∈ (states.foldl (.scan guardrails now) x).excluded := by
  induction states generalizing x with
  | nil => cases hrow
  | cons _ states ih =>
    obtain rfl | hrow := mem_cons.mp hrow
    · exact foldl_scan_excluded states (scan_excludes h x)
    · exact ih hrow _

theorem not_excluded {slots : List Slot} {taskId : String}
    (hm : 0 < r.config.guardrails.maxTaskAttempts)
    (h : taskId ∉ (r.exclusions slots store now).excluded) :
    store.attempts taskId < r.config.guardrails.maxTaskAttempts ∧
      (r.config.guardrails.taskRetryBackoff ≠ 0 → ∀ u, store.backoff taskId = some u → u ≤ now) := by
  have hfree : ∀ columns, store.retry[taskId]? = some columns →
      ¬ ({ columns with taskId } : TaskRetryState).Blocks r.config.guardrails now := by
    intro columns hcolumns hblocks
    refine h ?_
    unfold LoopRunner.exclusions
    rw [if_pos (by simp [hm])]
    refine foldl_scan_excludes hblocks (mem_map.mpr ⟨(taskId, columns), ?_, rfl⟩) _
    exact Std.ExtTreeMap.mem_toList_iff_getElem?_eq_some.mpr hcolumns
  unfold attempts backoff
  cases hcolumns : store.retry[taskId]? with
  | none => exact ⟨hm, nofun⟩
  | some columns =>
    obtain ⟨hattempts, hbackoff⟩ := not_or.mp (hfree columns hcolumns)
    refine ⟨Nat.lt_of_not_le fun hle => hattempts ⟨hm, hle⟩, fun hd u hu => ?_⟩
    refine Nat.le_of_not_lt fun hlt => hbackoff ⟨hd, ?_⟩
    have hu' : columns.backoffUntilSecs = some u := hu
    simpa [hu'] using hlt

/-! ## the verdict -/

theorem backoffUntil_covers (hd : guardrails.taskRetryBackoff = b * 1000000000)
    (hfits : now + b ≤ u64Max) :
    now + b ≤ now ∨ ∃ u, LoopRunner.backoffUntil guardrails now = some u ∧ now + b ≤ u := by
  unfold LoopRunner.backoffUntil
  rw [hd, Nat.mul_div_cancel b (by decide)]
  split_ifs with hzero
  · exact .inl (by omega)
  · exact .inr ⟨now + b, if_pos hfits, Nat.le_refl _⟩

theorem settled_tame {taskId : String} {wall : Nat} {marks : List Mark} {row : RunRow}
    {status : RunRowStatus} {cls : String × Bool} {detail : String}
    (hm : 0 < guardrails.maxTaskAttempts) (hd : guardrails.taskRetryBackoff = b * 1000000000)
    (hfits : wall + b ≤ u64Max) (h : Tame guardrails.maxTaskAttempts b wall (store.attempts taskId)
      (store.backoff taskId) (marks ++ [row.mark])) (hrunning : row.status = .running)
    (hlt : store.attempts taskId < guardrails.maxTaskAttempts) (hends : status.endsRun = true)
    (hnow : status.isRetryable = true → now = wall) : Tame guardrails.maxTaskAttempts b wall
      ((store.outcome guardrails taskId status cls now).attempts taskId)
      ((store.outcome guardrails taskId status cls now).backoff taskId)
      (marks ++ [((finishUpdate ((store.outcome guardrails taskId status cls
        now).finalStatus guardrails taskId status) now detail).set row).mark]) := by
  have hopen : row.mark.verdict = .fine := by simp [RunRow.mark, hrunning]
  have hattempts : (store.outcome guardrails taskId status cls now).attempts taskId =
      store.attempts taskId + if taskId = taskId ∧ status.isRetryable = true then 1 else 0 :=
    attempts_outcome ..
  cases hretry : status.isRetryable with
  | false =>
    -- completed, or aborted by a shutdown: nothing is counted
    have hfine : ((finishUpdate ((store.outcome guardrails taskId status cls
        now).finalStatus guardrails taskId status) now detail).set row).mark.verdict = .fine := by
      cases status with
      | completed | abortedShutdown => rfl
      | failed | stalled | timedOut => cases hretry
      | running | stuck | orphaned | paused => cases hends
    refine h.relabel hopen rfl ?_ hlt ?_ ?_ ?_
    · simp [hattempts, hretry, hfine, Verdict.isBad]
    · simp [hfine, Verdict.isBad]
    · simp [hfine]
    · simp [hfine]
  | true =>
    obtain rfl := hnow hretry
    rw [if_pos ⟨rfl, hretry⟩] at hattempts
    have hfinal : (store.outcome guardrails taskId status cls now).finalStatus guardrails taskId status =
        if store.attempts taskId + 1 = guardrails.maxTaskAttempts then .stuck else status := by
      have hex : (store.outcome guardrails taskId status cls now).exhausted guardrails taskId = true ↔
          _ := exhausted_iff hm
      have hiff : (store.outcome guardrails taskId status cls now).exhausted guardrails taskId = true ↔
          store.attempts taskId + 1 = guardrails.maxTaskAttempts := by
        rw [hex]
        omega
      cases status with
      | failed | stalled | timedOut => simp only [finalStatus, hiff]
      | completed | running | abortedShutdown | stuck | orphaned | paused => cases hretry
    rw [hfinal]
    split_ifs with hspent
    · refine h.relabel hopen rfl hattempts hlt (fun _ => ⟨fun _ => hspent, fun _ => rfl⟩) ?_ ?_
      · intro _ hend
        cases hend
      · intro _ hend
        cases hend
    · have hverdict : ((finishUpdate status now detail).set row).mark.verdict =
          .retry (some now) := (RunRow.mark_retry _ _).mpr ⟨hretry, rfl⟩
      refine h.relabel hopen rfl ?_ hlt ?_ ?_ ?_
      · rw [hattempts, hverdict]
        rfl
      · simp [hverdict, hspent]
      · intro _ hend
        rw [hverdict] at hend
        exact ⟨now, (Verdict.retry.inj hend).symm, Nat.le_refl now⟩
      · intro f hf
        rw [hverdict] at hf
        obtain rfl := Option.some.inj (Verdict.retry.inj hf)
        rw [backoff_outcome hretry]
        exact backoffUntil_covers hd hfits

/-! ## one invocation -/

def LoopRunner.wall (r : LoopRunner) (k : Seen) : Nat := r.startUnixSecs + k.elapsed / 1000000000

theorem LoopRunner.nowSecs?_eq (h : r.nowSecs? k.elapsed = some now) : now = r.wall k := by
  unfold nowSecs? at h
  dsimp only at h
  split_ifs at h
  exact (Option.some.inj h).symm

/-- the clock does not go back, and a back-off of `b` seconds from a reading is still a `u64` -/
def steady (r : LoopRunner) (b : Nat) (k : Seen) : (q : Query) → Answer q → Prop
  | .now, a => k.elapsed ≤ a.reply ∧ r.startUnixSecs + a.reply / 1000000000 + b ≤ u64Max
  | _, _ => True

/-- the guardrails hold of every task, and every unsettled run has attempts left -/
structure Kept (r : LoopRunner) (b : Nat) (w : World) : Prop where
  books : Books r w
  tame : ∀ taskId, Tame r.config.guardrails.maxTaskAttempts b (r.wall w.2)
    (w.2.store.attempts taskId) (w.2.store.backoff taskId) (w.2.store.marks taskId)
  once : w.2.store.keys.Nodup
  fits : r.wall w.2 + b ≤ u64Max
  /-- a run that is not settled has the last row of its task, which has attempts left -/
  unsettled : ∀ run ∈ w.1.slots.map Slot.row ++ w.1.hand,
    (∃ before row, w.2.store.history run.2 = before ++ [row] ∧ row.id = run.1) ∧
      w.2.store.attempts run.2 < r.config.guardrails.maxTaskAttempts

namespace Kept
variable {r : LoopRunner} {b : Nat} {l l' : Ledger} {k k' : Seen} {w w' : World}

theorem of_runs (h : Kept r b (l, k)) (hbooks : Books r (l', k')) (hstore : k'.store = k.store)
    (helapsed : k'.elapsed = k.elapsed)
    (hruns : (l'.slots.map Slot.row ++ l'.hand).Perm (l.slots.map Slot.row ++ l.hand)) :
    Kept r b (l', k') := by
  have hwall : r.wall k' = r.wall k := by rw [LoopRunner.wall, helapsed, LoopRunner.wall]
  refine ⟨hbooks, ?_, ?_, ?_, fun run hrun => ?_⟩
  · simpa only [hwall, hstore] using h.tame
  · simpa only [hstore] using h.once
  · simpa only [hwall] using h.fits
  · simpa only [hstore] using h.unsettled run (hruns.mem_iff.mp hrun)

theorem other_task {run run' : Nat × String} {hand : List (Nat × String)} (h : Kept r b (l, k))
    (hhand : l.hand = run :: hand) (hrun' : run' ∈ l.slots.map Slot.row ++ hand) :
    run'.2 ≠ run.2 := by
  intro htask
  have hmem : ∀ x ∈ l.slots.map Slot.row ++ hand, x ∈ l.slots.map Slot.row ++ l.hand := by
    intro x hx
    rw [hhand]
    exact (mem_append.mp hx).elim (mem_append_left _)
      fun hx => mem_append_right _ (mem_cons_of_mem _ hx)
  obtain ⟨⟨before, row, hlast, hid⟩, -⟩ := h.unsettled run (by simp [hhand])
  obtain ⟨⟨before', row', hlast', hid'⟩, -⟩ := h.unsettled run' (hmem run' hrun')
  rw [htask, hlast] at hlast'
  obtain ⟨-, hrow⟩ := append_inj' hlast' rfl
  have hsame : run'.1 = run.1 := by rw [← hid, ← hid', (cons.inj hrow).1]
  have hnodup := (h.books.accounted.nodup_iff.mpr h.books.inserted_nodup).of_append_left
  rw [hhand] at hnodup
  have hperm : (l.slots.map Slot.row ++ run :: hand).Perm (run :: (l.slots.map Slot.row ++ hand)) :=
    perm_middle
  have hnotin := (nodup_cons.mp ((hperm.map Prod.fst).nodup_iff.mp hnodup)).1
  exact hnotin (hsame ▸ mem_map_of_mem hrun')

theorem of_update {p : RunRow → Bool} {u : LoopRunStore.RowUpdate} (h : Kept r b (l, k))
    (hkey : ∀ row, ((u.set row).invocationId, (u.set row).taskId) = (row.invocationId, row.taskId))
    (hmark : ∀ row, row.status = .running → (u.set row).mark = row.mark)
    (hbooks : Books r (l, { k with store := k.store.updateRunning p u })) :
    Kept r b (l, { k with store := k.store.updateRunning p u }) := by
  have htask : ∀ row, (u.set row).taskId = row.taskId := fun row => (Prod.mk.inj (hkey row)).2
  have hmarks : ∀ taskId, (k.store.updateRunning p u).marks taskId = k.store.marks taskId := by
    refine marks_congr (updateRunning_map _ (fun row hrow => ?_) _ _)
    rw [htask, hmark row hrow]
  refine ⟨hbooks, fun taskId => ?_, ?_, h.fits, fun run hrun => ?_⟩
  · have := h.tame taskId
    rwa [← hmarks] at this
  · have hkeys : (k.store.updateRunning p u).keys = k.store.keys :=
      updateRunning_map _ (fun row _ => hkey row) _ _
    exact hkeys ▸ h.once
  · obtain ⟨⟨before, row, hlast, hid⟩, hlt⟩ := h.unsettled run hrun
    have hhistory := history_updateRunning htask k.store p run.2
    rw [hlast, map_append, map_singleton] at hhistory
    refine ⟨⟨_, _, hhistory, ?_⟩, hlt⟩
    split_ifs
    · rw [u.id_eq, hid]
    · exact hid

theorem settle {run : Nat × String} {hand : List (Nat × String)} {status : RunRowStatus}
    {cls : String × Bool} {now : Nat} {detail : String} (h : Kept r b (l, k))
    (hm : 0 < r.config.guardrails.maxTaskAttempts)
    (hd : r.config.guardrails.taskRetryBackoff = b * 1000000000) (hhand : l.hand = run :: hand)
    (hrun : k.store.isRunning run.1 = true) (hends : status.endsRun = true)
    (hnow : status.isRetryable = true → now = r.wall k) (hbooks : Books r (l', k'))
    (hl : l'.slots = l.slots ∧ l'.hand = hand) (helapsed : k'.elapsed = k.elapsed)
    (hstore : k'.store = k.store.settled r.config.guardrails run status cls now detail) :
    Kept r b (l', k') := by
  obtain ⟨⟨before, row, hlast, hid⟩, hlt⟩ := h.unsettled run (by simp [hhand])
  obtain ⟨hrow, htask⟩ : row ∈ k.store.rows ∧ row.taskId = run.2 :=
    mem_history.mp (by simp [hlast])
  have hrunning : row.status = .running := by
    obtain ⟨running, hmem, hrunning⟩ := any_eq_true.mp hrun
    simp only [Bool.and_eq_true, beq_iff_eq] at hrunning
    rw [eq_of_id hrow hmem (hid.trans hrunning.1.symm)]
    exact hrunning.2
  have hwall : r.wall k' = r.wall k := by rw [LoopRunner.wall, helapsed, LoopRunner.wall]
  have hhistory : ∀ taskId, k'.store.history taskId = (k.store.updateRunning (·.id == row.id)
      (finishUpdate ((k.store.outcome r.config.guardrails run.2 status cls
        now).finalStatus r.config.guardrails run.2 status) now detail)).history taskId := by
    intro _
    rw [hstore, hid, LoopRunStore.history, settled_rows]
    rfl
  have hattempts : ∀ taskId, k'.store.attempts taskId =
      k.store.attempts taskId + if taskId = run.2 ∧ status.isRetryable = true then 1 else 0 := by
    intro _
    rw [hstore]
    exact attempts_outcome ..
  have hother : ∀ taskId, taskId ≠ run.2 → k'.store.history taskId = k.store.history taskId ∧
      k'.store.attempts taskId = k.store.attempts taskId := by
    intro _ hne
    refine ⟨?_, by simp [hattempts, hne]⟩
    rw [hhistory]
    exact history_finish_other (fun _ => rfl) hrow (htask ▸ hne.symm)
  refine ⟨hbooks, fun taskId => ?_, ?_, ?_, fun run' hrun' => ?_⟩
  · show Tame _ b (r.wall k') _ _ _
    rw [hwall]
    by_cases hsame : taskId = run.2
    · subst hsame
      have htame := h.tame run.2
      rw [marks, hlast, map_append] at htame
      rw [marks, hhistory, history_finish (fun _ => rfl) hlast hrunning,
        map_append]
      rw [hstore]
      exact settled_tame hm hd h.fits htame hrunning hlt hends hnow
    · obtain ⟨hsameHistory, hsameAttempts⟩ := hother taskId hsame
      have hbackoff : k'.store.backoff taskId = k.store.backoff taskId := by
        rw [hstore]
        exact backoff_outcome_other hsame
      rw [marks, hsameHistory, hsameAttempts, hbackoff]
      exact h.tame taskId
  · show k'.store.keys.Nodup
    rw [hstore, settled_keys]
    exact h.once
  · show r.wall k' + b ≤ u64Max
    rw [hwall]
    exact h.fits
  · rw [hl.1, hl.2] at hrun'
    obtain ⟨hsameHistory, hsameAttempts⟩ := hother run'.2 (h.other_task hhand hrun')
    have hmem : run' ∈ l.slots.map Slot.row ++ l.hand := by
      rw [hhand]
      exact (mem_append.mp hrun').elim (mem_append_left _)
        fun hx => mem_append_right _ (mem_cons_of_mem _ hx)
    rw [hsameHistory, hsameAttempts]
    exact h.unsettled run' hmem

theorem insert {look : Look} {item : ReadyItem} {decisionId : Nat} {ended : PassEnd}
    (h : Kept r b (l, k)) (hm : 0 < r.config.guardrails.maxTaskAttempts)
    (hd : r.config.guardrails.taskRetryBackoff = b * 1000000000)
    (hitem : item ∈ look.fresh r l k) (hnow : r.nowSecs? k.elapsed = some look.now)
    (hfits : item.number ≤ i64Max ∧ look.now ≤ i64Max)
    (hbooks : Books r ({ look.passed r l k ended with hand := [(k.store.nextId, item.taskId)] },
      k.after (.insertRun (r.request item decisionId look.now)))) :
    Kept r b ({ look.passed r l k ended with hand := [(k.store.nextId, item.taskId)] },
      k.after (.insertRun (r.request item decisionId look.now))) := by
  have hexcluded := (Look.mem_fresh.mp hitem).2
  obtain ⟨hlt, hover⟩ := not_excluded hm hexcluded
  have hwall := LoopRunner.nowSecs?_eq hnow
  have hstore : (k.after (.insertRun (r.request item decisionId look.now))).store =
      k.store.insert (r.request item decisionId look.now) := exec_insertRun hfits k.store
  have hhistory : ∀ taskId, (k.after (.insertRun (r.request item decisionId look.now))).store.history
      taskId = k.store.history taskId ++ if item.taskId = taskId
        then [k.store.newRow (r.request item decisionId look.now)] else [] := by
    intro taskId
    rw [hstore]
    show filter _ (k.store.rows ++ [_]) = _
    by_cases htask : item.taskId = taskId
    · simp [LoopRunStore.history, newRow, LoopRunner.request, htask]
    · simp [LoopRunStore.history, newRow, LoopRunner.request, htask]
  have hretry : (k.after (.insertRun (r.request item decisionId look.now))).store.retry =
      k.store.retry := by
    rw [hstore]
    rfl
  -- no unsettled run is of the selected task: the task would have been excluded
  have hother : ∀ run ∈ l.slots.map Slot.row, item.taskId ≠ run.2 := by
    intro _ hrun htask
    obtain ⟨slot, hslot, rfl⟩ := mem_map.mp hrun
    refine hexcluded ?_
    have hown : item.taskId ∈ l.slots.map (·.taskId) := htask ▸ mem_map_of_mem hslot
    show item.taskId ∈ (r.exclusions l.slots k.store look.now).excluded
    unfold LoopRunner.exclusions
    split_ifs
    · exact foldl_scan_excluded _ (mem_append_left _ hown)
    · exact mem_append_left _ hown
  refine ⟨hbooks, fun taskId => ?_, ?_, h.fits, fun run hrun => ?_⟩
  · have htame := h.tame taskId
    show Tame _ b (r.wall k) _ _ _
    rw [attempts, backoff, hretry, marks, hhistory]
    split_ifs with htask
    · subst htask
      rw [map_append]
      refine htame.append hlt (fun hb u hu => ?_) ?_
      · exact hwall ▸ hover (by omega) u hu
      · simp [RunRow.mark, newRow, LoopRunner.request, hwall]
    · rw [append_nil]
      exact htame
  · show (k.after _).store.keys.Nodup
    rw [hstore]
    show (map _ (k.store.rows ++ [_])).Nodup
    rw [map_append]
    refine nodup_append.mpr ⟨h.once, nodup_singleton _, ?_⟩
    rintro key hkey _ hnew rfl
    obtain rfl := mem_singleton.mp hnew
    exact hexcluded (mem_exclusions hkey _ _)
  · obtain hrun | hrun := mem_append.mp hrun
    · obtain ⟨hlast, hleft⟩ := h.unsettled run (mem_append_left _ hrun)
      rw [hhistory, if_neg (hother run hrun), append_nil]
      refine ⟨hlast, ?_⟩
      rw [attempts, hretry]
      exact hleft
    · obtain rfl := mem_singleton.mp hrun
      rw [hhistory, if_pos rfl]
      refine ⟨⟨_, _, rfl, rfl⟩, ?_⟩
      rw [attempts, hretry]
      exact hlt

theorem step (hm : 0 < r.config.guardrails.maxTaskAttempts)
    (hd : r.config.guardrails.taskRetryBackoff = b * 1000000000) (hstep : Step r (steady r b) w w')
    (h : Kept r b w) : Kept r b w' := by
  have hbooks := Books.step hstep h.books
  cases hstep with
  | @read l k a ha =>
    have hwall : r.wall k ≤ r.wall (k.read r a.reply) :=
      Nat.add_le_add_left (Nat.div_le_div_right ha.1) _
    exact ⟨hbooks, fun taskId => (h.tame taskId).later hwall, h.once, ha.2, h.unsettled⟩
  | odd => exact h.of_runs hbooks rfl rfl (.refl _)
  | @mark l k slots hkeys =>
    refine h.of_runs hbooks rfl rfl ?_
    have hrows := congrArg (map fun key : Nat × String × Handle => (key.1, key.2.1)) hkeys
    rw [map_map, map_map] at hrows
    exact (List.Perm.of_eq hrows).append_right l.hand
  | @beat l k runId beat nowSecs =>
    obtain hs | hs := k.store.exec_heartbeat runId beat nowSecs
    · exact h.of_runs hbooks hs rfl (.refl _)
    · have hk : k.after (.heartbeat runId beat nowSecs) = { k with
          store := k.store.updateRunning (·.id == runId) (beatUpdate beat nowSecs) } :=
        congrArg (fun store => { k with store }) hs
      rw [hk] at hbooks ⊢
      exact h.of_update (fun _ => rfl) (fun _ _ => rfl) hbooks
  | @take l k before after slot hs =>
    refine h.of_runs hbooks rfl rfl ?_
    rw [hs, map_append, map_append]
    simp only [append_assoc]
    refine List.Perm.append_left _ ?_
    exact perm_middle
  | settle hhand hnow hrun hends =>
    exact h.settle hm hd hhand hrun hends (fun _ => LoopRunner.nowSecs?_eq hnow) hbooks ⟨rfl, rfl⟩ rfl
      rfl
  | count => exact h.of_runs hbooks rfl rfl (.refl _)
  | skip =>
    exact h.of_runs hbooks rfl rfl (.refl _)
  | idle => exact h.of_runs hbooks rfl rfl (.refl _)
  | insert _ _ hitem hnow _ _ hfits =>
    exact h.insert hm hd hitem hnow hfits hbooks
  | @launch l k slot hand hhand =>
    refine h.of_runs hbooks rfl rfl ?_
    rw [hhand]
    simp
  | refuse _ _ hhand hnow hrun =>
    exact h.settle hm hd hhand hrun rfl (fun _ => LoopRunner.nowSecs?_eq hnow) hbooks ⟨rfl, rfl⟩ rfl rfl
  | @sweep l k run hand stamp hhand hrun hfits =>
    -- the terminal write of the sweep alone is what settling an aborted run does
    have hstore : (k.store.exec (.finish run.1 .abortedShutdown stamp "unattributed-drain-abort")).2 =
        k.store.settled r.config.guardrails run .abortedShutdown ("", false) stamp
          "unattributed-drain-abort" := exec_finish rfl hfits hrun
    have hnever : RunRowStatus.abortedShutdown.isRetryable = true → stamp = r.wall k := fun h => by cases h
    exact h.settle hm hd hhand hrun rfl hnever hbooks ⟨rfl, rfl⟩ rfl hstore

end Kept

/-! ## sequences of invocations -/

def reading? : Sigma Answer → Option Nat
  | ⟨.now, a⟩ => some a.reply
  | _ => none

def readings (trace : List (Sigma Answer)) : List Nat := trace.filterMap reading?

/-- every call of the store succeeds, and a back-off of `b` seconds from a reading is still a `u64` -/
def paced (r : LoopRunner) (b : Nat) (trace : List (Sigma Answer)) : Prop :=
  (∀ e ∈ trace, storeSucceeds e = true) ∧ r.startUnixSecs + b ≤ u64Max ∧
    ∀ reading ∈ readings trace, r.startUnixSecs + reading / 1000000000 + b ≤ u64Max

/-- an invocation on a store left at the second `wall`, followed for any number of rounds: `m` attempts
per task, a back-off of `d` nanoseconds, `C` of its calls -/
structure Invocation (m d : Nat) (C : LoopRunner → List (Sigma Answer) → Prop) (store : LoopRunStore)
    (wall : Nat) (r : LoopRunner) (trace : List (Sigma Answer)) : Prop where
  attempts : r.config.guardrails.maxTaskAttempts = m
  backoff : r.config.guardrails.taskRetryBackoff = d
  fresh : store.own r.invocationId = []
  starts : wall ≤ r.startUnixSecs
  clock : (readings trace).Pairwise (· ≤ ·)
  served : (books r fun _ _ _ => True).Expected { store } trace
  calls : C r trace

def LoopRunner.seen (r : LoopRunner) (store : LoopRunStore) (trace : List (Sigma Answer)) : Seen :=
  (books r fun _ _ _ => True).after { store } trace

/-- what the invocations of a loop, one at a time, make of a shared store by the second `wall` -/
inductive Shared (m d : Nat) (C : LoopRunner → List (Sigma Answer) → Prop) :
    LoopRunStore → Nat → Prop where
  | fresh (wall : Nat) : Shared m d C .empty wall
  | invocation {store : LoopRunStore} {wall : Nat} (r : LoopRunner) {σ : Type}
      (h : σ → (q : Query) → Answer q × σ) (t : σ) (n : Nat) (hshared : Shared m d C store wall)
      (hrun : Invocation m d C store wall r ((r.run n).trace h t)) :
      Shared m d C (r.seen store ((r.run n).trace h t)).store
        (r.wall (r.seen store ((r.run n).trace h t)))
  | recovery {store : LoopRunStore} {wall : Nat} (nowSecs : Nat) (hshared : Shared m d C store wall) :
      Shared m d C (store.exec (.recoverRunningRows nowSecs)).2 wall

/-- the guardrails, over all rows of the store -/
structure RetryLaw (m d : Nat) (store : LoopRunStore) : Prop where
  bounded : ∀ taskId, ((store.history taskId).filter (·.status.isBad)).length ≤ m
  stuck_iff : ∀ taskId before row after, store.history taskId = before ++ row :: after →
    row.status.isBad = true →
      (row.status = .stuck ↔ (before.filter (·.status.isBad)).length + 1 = m)
  stuck_last : ∀ taskId before row after, store.history taskId = before ++ row :: after →
    row.status = .stuck → after = []
  once : store.keys.Nodup
  finished : ∀ row ∈ store.rows, row.status.isRetryable = true → row.finishedAtSecs.isSome = true
  spaced : ∀ taskId, (store.history taskId).Pairwise fun row row' =>
    row.status.isRetryable = true → ∀ f, row.finishedAtSecs = some f →
      f * 1000000000 + d ≤ row'.startedAtSecs * 1000000000

theorem badCount_marks (rows : List RunRow) :
    badCount (rows.map RunRow.mark) = (rows.filter (·.status.isBad)).length := by
  rw [badCount, countP_map, ← countP_eq_length_filter]
  exact countP_congr fun row _ => by simp [RunRow.mark_isBad]

theorem RetryLaw.of_tame {wall : Nat} (honce : store.keys.Nodup) (h : ∀ taskId, Tame m b wall
      (store.attempts taskId) (store.backoff taskId) (store.marks taskId)) :
    RetryLaw m (b * 1000000000) store := by
  have hsplit : ∀ {taskId before row after}, store.history taskId = before ++ row :: after →
      store.marks taskId = before.map RunRow.mark ++ row.mark :: after.map RunRow.mark := by
    intro _ _ _ _ hsplit
    rw [marks, hsplit, map_append, map_cons]
  constructor
  · intro taskId
    rw [← badCount_marks]
    exact (h taskId).attempts_eq ▸ (h taskId).attempts_le
  · intro taskId _ row _ hs hbad
    rw [← badCount_marks, ← RunRow.mark_stuck]
    exact (h taskId).stuck_iff _ _ _ (hsplit hs) (row.mark_isBad.trans hbad)
  · intro taskId _ row _ hs hstuck
    have := (h taskId).stuck_last _ _ _ (hsplit hs) (row.mark_stuck.mpr hstuck)
    exact map_eq_nil_iff.mp this
  · exact honce
  · intro row hrow hretry
    have hmark : row.mark ∈ store.marks row.taskId :=
      mem_map_of_mem (mem_history.mpr ⟨hrow, rfl⟩)
    obtain ⟨f, hf, -⟩ := (h row.taskId).finished _ hmark _ ((row.mark_retry _).mpr ⟨hretry, rfl⟩)
    rw [hf]
    rfl
  · intro taskId
    have hspaced := (h taskId).spaced
    rw [marks, pairwise_map] at hspaced
    refine hspaced.imp fun {row row'} hstart hretry f hf => ?_
    have hle : f + b ≤ row'.startedAtSecs := hstart f ((row.mark_retry _).mpr ⟨hretry, hf⟩)
    rw [← Nat.add_mul]
    exact Nat.mul_le_mul_right _ hle

theorem steady_expected (hserved : (books r fun _ _ _ => True).Expected k trace)
    (hclock : (k.elapsed :: readings trace).Pairwise (· ≤ ·))
    (hfits : ∀ reading ∈ readings trace, r.startUnixSecs + reading / 1000000000 + b ≤ u64Max) :
    (books r (steady r b)).Expected k trace := by
  induction trace generalizing k with
  | nil => trivial
  | cons e trace ih =>
    obtain ⟨q, a⟩ := e
    obtain ⟨hfirst, hrest⟩ := hserved
    cases hq : reading? ⟨q, a⟩ with
    | some =>
      cases q with
      | now =>
        obtain rfl := Option.some.inj hq
        obtain ⟨hle, hclock⟩ := pairwise_cons.mp hclock
        exact ⟨⟨hfirst.1, hle _ mem_cons_self, hfits _ mem_cons_self⟩,
          ih hrest hclock fun x hx => hfits x (mem_cons_of_mem _ hx)⟩
      | _ => cases hq
    | none =>
      have hreadings : readings (⟨q, a⟩ :: trace) = readings trace := by
        simp [readings, hq]
      rw [hreadings] at hclock hfits
      have helapsed : (k.next r q a).elapsed = k.elapsed := by
        cases q with
        | now => cases hq
        | store op =>
          show (k.answered op a.reply).elapsed = _
          unfold Seen.answered
          split <;> rfl
        | start =>
          show (k.launched a.reply).elapsed = _
          unfold Seen.launched
          split <;> rfl
        | _ => rfl
      have hlaw : steady r b k q a := by
        cases q with
        | now => cases hq
        | _ => trivial
      refine ⟨⟨hfirst.1, hlaw⟩, ih hrest ?_ hfits⟩
      show ((k.next r q a).elapsed :: readings trace).Pairwise (· ≤ ·)
      rwa [helapsed]

theorem run_reaches {law : Seen → (q : Query) → Answer q → Prop} {w0 : World} {σ : Type}
    {h : σ → (q : Query) → Answer q × σ} {t : σ} {n : Nat} (hat : At r law w0 r.initial 0 [] k)
    (hserved : (books r law).Expected k ((r.run n).trace h t))
    (hok : ((books r law).after k ((r.run n).trace h t)).failed = false) :
    ∃ l, Reach r law w0 (l, (books r law).after k ((r.run n).trace h t)) := by
  have hswept : ∀ {s : LoopState} {slots : List Slot} {k : Seen}, k.failed = false →
      Swept r law w0 s slots k → ∃ l, Reach r law w0 (l, k) := by
    rintro s slots k hok (⟨hfailed, -⟩ | ⟨l, hr, -⟩)
    · rw [hok] at hfailed
      cases hfailed
    · exact ⟨l, hr⟩
  have hended := run_ended hat hserved
  revert hended
  rcases ((r.run n).run h t).1 with s | ⟨(e | e) | summary, s⟩
  · exact fun hat' => ⟨_, hat'⟩
  · exact hswept hok
  · exact hswept hok
  · exact fun hended => ⟨_, hended.1⟩

theorem failed_after {law : Seen → (q : Query) → Answer q → Prop} (hk : k.failed = false)
    (h : ∀ e ∈ trace, storeSucceeds e = true) : ((books r law).after k trace).failed = false := by
  induction trace generalizing k with
  | nil => exact hk
  | cons e _ ih =>
    refine ih ?_ fun e' he' => h e' (mem_cons_of_mem e he')
    have hstore := h e mem_cons_self
    obtain ⟨q, reply, moment⟩ := e
    cases q with
    | store =>
      cases reply with
      | ok => exact hk
      | error => cases hstore
    | start =>
      show (k.launched reply).failed = false
      unfold Seen.launched
      split <;> exact hk
    | _ => exact hk

theorem Invocation.kept {wall : Nat}
    (h : Invocation m (b * 1000000000) (paced · b) store wall r trace) (hm : 1 ≤ m)
    (honce : store.keys.Nodup) (htame : ∀ taskId, Tame m b wall (store.attempts taskId)
      (store.backoff taskId) (store.marks taskId)) {w : World}
    (hr : Reach r (steady r b) (r.initial.ledger 0 [], { store }) w) : Kept r b w := by
  obtain ⟨-, hstart, -⟩ := h.calls
  have hattempts := h.attempts
  subst hattempts
  refine hr.invariant (fun _ _ => Kept.step hm h.backoff) ?_
  refine ⟨⟨?_, .refl _, nofun, rfl, .refl _, Nat.zero_le _, ?_⟩, ?_, honce, ?_, nofun⟩
  · simp [h.fresh]
  · simp [h.fresh]
  · exact fun taskId => (htame taskId).later (by simpa [LoopRunner.wall] using h.starts)
  · simpa [LoopRunner.wall] using hstart

theorem Invocation.steady {wall : Nat} (h : Invocation m d (paced · b) store wall r trace) :
    (books r (steady r b)).Expected { store } trace :=
  steady_expected h.served (pairwise_cons.mpr ⟨fun _ _ => Nat.zero_le _, h.clock⟩) h.calls.2.2

theorem Shared.tame (hm : 1 ≤ m) {wall : Nat} (h : Shared m (b * 1000000000) (paced · b) store wall) :
    store.keys.Nodup ∧ ∀ taskId,
      Tame m b wall (store.attempts taskId) (store.backoff taskId) (store.marks taskId) := by
  induction h with
  | fresh =>
    refine ⟨nodup_nil, fun taskId => ?_⟩
    simpa [empty, attempts, backoff, marks,
      LoopRunStore.history] using Tame.nil
  | @invocation store wall r σ h t n hshared hrun ih =>
    obtain ⟨l, hr⟩ := run_reaches .refl hrun.steady (failed_after rfl hrun.calls.1)
    have hkept := hrun.kept hm ih.1 ih.2 hr
    exact ⟨hkept.once, hrun.attempts ▸ hkept.tame⟩
  | @recovery store wall nowSecs hshared ih =>
    obtain ⟨honce, htame⟩ := ih
    have hkeys : (store.exec (.recoverRunningRows nowSecs)).2.keys = store.keys :=
      exec_keys (fun _ h => by cases h) store
    rw [hkeys]
    refine ⟨honce, fun taskId => ?_⟩
    obtain hs | hs := store.exec_recoverRunningRows nowSecs
    · rw [hs]
      exact htame taskId
    · rw [hs, marks_congr (updateRunning_map _ (fun row hrow => ?_) store _)]
      · exact htame taskId
      -- an orphaned row has the mark of an open one
      · simp [RunRow.mark, finishUpdate, hrow]

theorem RetryLaw.of_rows {store' : LoopRunStore} (h : RetryLaw m d store)
    (hrows : store'.rows = store.rows) : RetryLaw m d store' := by
  have hhistory : store'.history = store.history := by
    unfold LoopRunStore.history
    rw [hrows]
  have hkeys : store'.keys = store.keys := congrArg (map _) hrows
  refine ⟨?_, ?_, ?_, hkeys ▸ h.once, hrows ▸ h.finished, ?_⟩
  · rw [hhistory]
    exact h.bounded
  · rw [hhistory]
    exact h.stuck_iff
  · rw [hhistory]
    exact h.stuck_last
  · rw [hhistory]
    exact h.spaced

/-- Over every sequence of invocations on one store, with a back-off of whole seconds that no reading of
the clock takes past the end of `u64`, and whose store calls succeed: the guardrails hold between the
invocations, and at every moment of the next one. -/
theorem retry_guardrails_hold {m b : Nat} (hm : 1 ≤ m) {store : LoopRunStore} {wall : Nat}
    (hshared : Shared m (b * 1000000000) (paced · b) store wall) :
    RetryLaw m (b * 1000000000) store ∧
      ∀ (r : LoopRunner) {σ : Type} (h : σ → (q : Query) → Answer q × σ) (t : σ) (n : Nat),
        Invocation m (b * 1000000000) (paced · b) store wall r ((r.run n).trace h t) →
          ∀ before, before <+: (r.run n).trace h t →
            RetryLaw m (b * 1000000000) (r.seen store before).store := by
  obtain ⟨honce, htame⟩ := hshared.tame hm
  refine ⟨.of_tame honce htame, fun r σ h t n hrun before hbefore => ?_⟩
  have hok : (r.seen store before).failed = false :=
    failed_after rfl fun e he => hrun.calls.1 e (hbefore.subset he)
  obtain hfailed | ⟨l, k', hr, hk⟩ := run_shown .refl hrun.steady hbefore
  · have hfailed' : (r.seen store before).failed = true := hfailed
    rw [hok] at hfailed'
    cases hfailed'
  · have hkept := hrun.kept hm honce htame hr
    have hlaw := RetryLaw.of_tame hkept.once hkept.tame
    rw [hrun.attempts] at hlaw
    exact hlaw.of_rows (congrArg Prod.fst hk).symm

/-! ## two small histories -/

def guardedRunner (invocationId : String) (m d start : Nat) : LoopRunner :=
  { soloRunner with
    invocationId
    startUnixSecs := start
    config := { soloConfig with
      guardrails := { maxTaskAttempts := m, taskRetryBackoff := d, maxTurnsPerAttempt := none } } }

def refusingScript (i : Nat) : (q : Query) → Answer q
  | .start .. => ⟨.error (.spawn "board-o_r-1" "no worktree"), ⟨0, 0⟩⟩
  | .now => ⟨if i < 20 then 0 else 10 * 1000000000, ⟨0, 0⟩⟩
  | q => ⟨calm q, ⟨0, 0⟩⟩

def refused (r : LoopRunner) (store : LoopRunStore) : List (Sigma Answer) :=
  (r.run 2).trace (serve refusingScript) (store, 0)

theorem served_refused (r : LoopRunner) (store : LoopRunStore) :
    (books r fun _ _ _ => True).Expected { store } (refused r store) :=
  serve_expected refusingScript (fun _ _ _ => trivial) _ { store } 0

def onceRefused (m d : Nat) : LoopRunStore :=
  ((guardedRunner "run-1" m d 100).seen .empty (refused (guardedRunner "run-1" m d 100) .empty)).store

def twiceRefused (m d : Nat) : LoopRunStore :=
  ((guardedRunner "run-2" m d 110).seen (onceRefused m d)
    (refused (guardedRunner "run-2" m d 110) (onceRefused m d))).store

theorem shared_twiceRefused {C : LoopRunner → List (Sigma Answer) → Prop}
    (h1 : Invocation m d C .empty 0 (guardedRunner "run-1" m d 100)
      (refused (guardedRunner "run-1" m d 100) .empty))
    (h2 : Invocation m d C (onceRefused m d)
      ((guardedRunner "run-1" m d 100).wall
        ((guardedRunner "run-1" m d 100).seen .empty (refused (guardedRunner "run-1" m d 100) .empty)))
      (guardedRunner "run-2" m d 110) (refused (guardedRunner "run-2" m d 110) (onceRefused m d))) :
    ∃ wall, Shared m d C (twiceRefused m d) wall :=
  ⟨_, .invocation _ _ _ _ (.invocation _ _ _ _ (.fresh 0) h1) h2⟩

/-- the second attempt fails ten seconds after the first and exhausts the budget -/
theorem retry_guardrails_hold_twice :
    ((twiceRefused 2 (5 * 1000000000)).history "board-o_r-1").map
        (fun row => (row.status, row.startedAtSecs)) = [(.failed, 100), (.stuck, 110)] ∧
      RetryLaw 2 (5 * 1000000000) (twiceRefused 2 (5 * 1000000000)) := by
  obtain ⟨wall, hshared⟩ := shared_twiceRefused (m := 2) (d := 5 * 1000000000) (C := (paced · 5))
    ⟨rfl, rfl, rfl, by decide, by decide +kernel, served_refused _ _,
      by decide +kernel, by decide +kernel, by decide +kernel⟩
    ⟨rfl, rfl, by decide +kernel, by decide +kernel, by decide +kernel, served_refused _ _,
      by decide +kernel, by decide +kernel, by decide +kernel⟩
  exact ⟨by decide +kernel, (retry_guardrails_hold (by decide) hshared).1⟩

/-- With a back-off of `u64::MAX` seconds and every call of the store a success, a second invocation
starts the task again ten seconds after it failed. -/
theorem overflow_disables_backoff :
    (∃ wall, Shared 3 (u64Max * 1000000000) (fun _ trace => ∀ e ∈ trace, storeSucceeds e = true)
        (twiceRefused 3 (u64Max * 1000000000)) wall) ∧
      ((twiceRefused 3 (u64Max * 1000000000)).history "board-o_r-1").map
        (fun row => (row.status, row.startedAtSecs, row.finishedAtSecs)) =
          [(.failed, 100, some 100), (.failed, 110, some 110)] ∧
      ¬ RetryLaw 3 (u64Max * 1000000000) (twiceRefused 3 (u64Max * 1000000000)) := by
  refine ⟨shared_twiceRefused
    ⟨rfl, rfl, rfl, by decide, by decide +kernel, served_refused _ _, by decide +kernel⟩
    ⟨rfl, rfl, by decide +kernel, by decide +kernel, by decide +kernel, served_refused _ _,
      by decide +kernel⟩, by decide +kernel, fun hlaw => ?_⟩
  have hpairs : (((twiceRefused 3 (u64Max * 1000000000)).history "board-o_r-1").map
      fun row => (row.status.isRetryable, row.finishedAtSecs, row.startedAtSecs)) =
        [(true, some 100, 100), (true, some 110, 110)] := by decide +kernel
  have hspaced := hlaw.spaced "board-o_r-1"
  have hmapped : (((twiceRefused 3 (u64Max * 1000000000)).history "board-o_r-1").map
      fun row => (row.status.isRetryable, row.finishedAtSecs, row.startedAtSecs)).Pairwise
        fun x y => x.1 = true → ∀ f, x.2.1 = some f →
          f * 1000000000 + u64Max * 1000000000 ≤ y.2.2 * 1000000000 := pairwise_map.mpr hspaced
  rw [hpairs] at hmapped
  have hle := (pairwise_cons.mp hmapped).1 _ mem_cons_self rfl 100 rfl
  revert hle
  decide

end Campaign

import Orchestraitor.Campaign.LoopKickoff

/-!
# No worker starts after the seal

Between the poll and the planning a pass reads the clock and asks the shutdown channel once more; a
worker is started only behind both checks.  What happens after them, while the decision provider and
the run store answer, is not checked again.
-/

namespace Campaign
open Base CallState

structure Checks where
  reading : Nat := 0
  budgetAt : Nat := 0
  changed : Option Bool := none
  sent : Nat := 0

namespace Checks

def next (k : Checks) : (q : Query) → Answer q → Checks
  | .now, a => { k with reading := a.moment.elapsed }
  | .hasChanged _, a =>
    { k with budgetAt := k.reading, changed := a.reply, sent := a.moment.sent }
  | _, _ => k

def Passed (r : LoopRunner) (k : Checks) : Prop :=
  k.budgetAt < r.config.budgets.runBudget ∧ (k.changed.isSome = true → k.sent = 0)

end Checks

/-- the clock reads the time, and a channel whose sender lives says whether it has more than was seen -/
def truthful : Sigma Answer → Bool
  | ⟨.now, a⟩ => a.reply == a.moment.elapsed
  | ⟨.hasChanged seen, a⟩ => a.reply.all (· == decide (seen < a.moment.sent))
  | _ => true

/-- at the checks the sender lives or has not sent a signal; between them and the start no signal is sent,
and the budget lasts -/
def undisturbed (r : LoopRunner) (k : Checks) : Sigma Answer → Bool
  | ⟨.start .., a⟩ => (k.changed.isSome || k.sent == 0) && a.moment.sent == k.sent &&
    (decide (r.config.budgets.runBudget ≤ k.budgetAt) ||
      decide (a.moment.elapsed < r.config.budgets.runBudget))
  | _ => true

def allUndisturbed (r : LoopRunner) : Checks → List (Sigma Answer) → Bool
  | _, [] => true
  | k, e :: trace => undisturbed r k e && allUndisturbed r (k.next e.1 e.2) trace

/-- follows the checks, of truthful answers; a worker starts only behind them -/
def gatekeeper (r : LoopRunner) : Calls.Monitor Answer Checks :=
  { permits := fun k q => match q with
      | .start .. => k.Passed r
      | _ => True
    expects := fun _ q a => truthful ⟨q, a⟩ = true
    next := Checks.next }

section
variable {r : LoopRunner} {α : Type} {x : RunM α} {s : LoopState} {k : Checks}

/-- as long as the loop is not stopped, the pass has seen nothing of the shutdown channel -/
def Unsealed (s : LoopState) : Prop := s.stop = none → s.seenByPass = 0

theorem permits_of_not_start {q : Query} (h : q.isStart = false) : (gatekeeper r).permits k q := by
  cases q with
  | start => cases h
  | _ => trivial

theorem gatekeeper_meets {R : LoopState → Prop} (hx : x.Stays (fun q => q.isStart = false) R)
    (hs : R s) : x.Meets (gatekeeper r) (fun _ s' _ => R s') (fun _ _ _ => True) s k := by
  refine (hx.meets (J := fun _ => True) ?_ hs trivial).mono (fun _ _ _ h => h.1) fun _ _ _ _ => trivial
  exact fun k q _ hq => ⟨permits_of_not_start hq, fun _ _ => trivial⟩

theorem gatekeeper_sealing (hx : ∀ v, x.Stays (fun q => q.isStart = false) (Sealing v))
    (hs : Unsealed s) :
    x.Meets (gatekeeper r) (fun _ s' _ => Unsealed s') (fun _ _ _ => True) s k :=
  (gatekeeper_meets (hx s.polled) ⟨rfl, hs⟩).mono (fun _ _ _ h => h.2) fun _ _ _ _ => trivial

theorem supervises_not_start {q : Query} (h : q.supervises) : q.isStart = false := by
  cases q <;> first | rfl | exact h.elim

theorem waits_not_start {q : Query} (h : q.waits) : q.isStart = false := by
  cases q <;> first | rfl | exact h.elim

theorem through_passed : Through (gatekeeper r) (·.Passed r) := by
  intro k q hk hq
  constructor
  · cases q with
    | start => exact hk
    | _ => trivial
  · intro a _
    cases q with
    | hasChanged => exact hq.elim
    | _ => exact hk

theorem afterSnapshot_gated {snapshot : BoardSnapshot} (hs : s.stop = none) (hseen : s.seenByPass = 0) :
    (r.afterSnapshot snapshot).Meets (gatekeeper r) (fun _ s' _ => Unsealed s')
      (fun _ _ _ => True) s k := by
  unfold LoopRunner.afterSnapshot note
  rw [meets_bind]
  refine meets_call.mpr ⟨trivial, fun first hfirst => ?_⟩
  split_ifs with hbudget
  · rw [meets_bind]
    refine gatekeeper_sealing (fun v => ?_) (fun _ => hseen)
    exact (stays_call (by rfl)).bind fun _ => declareStop_sealing.bind fun _ => stays_pure _
  rw [meets_bind]
  refine meets_call.mpr ⟨trivial, fun _ _ => ?_⟩
  rw [meets_bind]
  refine meets_call.mpr ⟨trivial, fun _ _ => ?_⟩
  rw [meets_bind, meets_get, meets_bind]
  refine meets_call.mpr ⟨trivial, fun looked hlooked => ?_⟩
  split_ifs with hchanged
  · rw [meets_bind]
    refine gatekeeper_sealing (fun v => ?_) (fun _ => hseen)
    exact (shutdownFromPass_sealing (by rfl)).bind fun _ => stays_pure _
  -- both checks are behind: the budget by the first reading, the channel by its answer
  have hpassed : Checks.Passed r
      { k with reading := first.moment.elapsed, budgetAt := first.moment.elapsed,
               changed := looked.reply, sent := looked.moment.sent } := by
    refine ⟨?_, fun hsome => ?_⟩
    · have hread : first.reply = first.moment.elapsed := beq_iff_eq.mp hfirst
      show first.moment.elapsed < _
      exact hread ▸ Nat.lt_of_not_le hbudget
    · obtain ⟨changed, hreply⟩ := Option.isSome_iff_exists.mp hsome
      have hreply' : looked.reply = some changed := hreply
      have hlooked' : looked.reply.all (· == decide (s.seenByPass < looked.moment.sent)) = true := hlooked
      have htold : changed = true ↔ s.seenByPass < looked.moment.sent := by
        rw [hreply', Option.all_some, beq_iff_eq] at hlooked'
        rw [hlooked', decide_eq_true_iff]
      cases changed with
      | true => exact absurd hreply' hchanged
      | false =>
        show looked.moment.sent = 0
        exact Nat.eq_zero_of_not_pos fun hpos =>
          Bool.false_ne_true (htold.mpr (lt_of_eq_of_lt hseen hpos))
  rw [meets_bind]
  refine meets_call.mpr ⟨trivial, fun second _ => ?_⟩
  rw [meets_bind]
  have hnow : (r.nowSecs second.reply).Stays Query.plans (· = s) := stays_nowSecs
  refine Meets.mono (hnow.meets through_passed rfl ?_) ?_ fun _ _ _ _ => trivial
  · exact hpassed
  rintro now s' k' ⟨rfl, hk'⟩
  rw [meets_bind]
  refine (planAndSpawn_plans through_passed ⟨rfl, rfl⟩ hk').mono ?_ fun _ _ _ _ => trivial
  rintro _ s'' k'' ⟨⟨hc, -⟩, -⟩
  intro _
  exact (congrArg Cells.seenByPass hc).trans hseen

theorem gatekeeper_rules :
    RoundRules r (gatekeeper r) (fun s _ => Unsealed s) fun _ _ => True where
  frame hc _ h hs := (congrArg Cells.seenByPass hc).trans (h ((congrArg Cells.stop hc).symm.trans hs))
  call := by
    intro s k q h hq
    refine ⟨permits_of_not_start ?_, fun _ _ => h⟩
    obtain hq | hq | ⟨now, rfl⟩ := hq
    · exact supervises_not_start hq
    · exact waits_not_start hq
    · rfl
  err _ := trivial
  seen _ h := h
  stop _ _ h _ := gatekeeper_sealing (fun _ => declareStop_sealing) h
  cap _ _ := nofun
  shutdown := by
    intro s k seen _ _
    refine (shutdownFromPass_meets (J := fun _ => True) (fun _ _ => ⟨trivial, fun _ _ => trivial⟩) rfl
      trivial).mono ?_ fun _ _ _ _ => trivial
    exact fun _ s' _ h => h.1.2
  drain h _ := gatekeeper_sealing (fun _ => drainStep_sealing.weaken fun _ => supervises_not_start) h
  wait h := gatekeeper_sealing (fun _ => waitRound_sealing.weaken fun _ => waits_not_start) h
  poll := by
    intro s k _ h hs
    refine ⟨trivial, fun a _ => ?_⟩
    obtain ⟨polled, moment⟩ := a
    cases polled with
    | snapshot => exact afterSnapshot_gated hs (h hs)
    | pollFailed | shutdown | budgetExpired => exact h

theorem run_gated (r : LoopRunner) (n : Nat) :
    (r.run n).Keeps (gatekeeper r) (fun _ _ => True) {} := by
  refine (r.run_keeps (I := fun s _ => Unsealed s) (E := fun _ _ _ => True) (F := fun _ _ _ => True)
    (fun _ => trivial) ?_ ?_ n fun _ => rfl).mono fun _ _ _ => trivial
  swap
  · have hlasts : Lasts (gatekeeper r) Query.supervises fun _ _ => True :=
      ⟨fun _ _ h => h, fun _ hq => ⟨permits_of_not_start (supervises_not_start hq), fun _ _ => trivial⟩⟩
    intro result s k _
    refine conclude_meets_of_lasts hlasts hlasts ?_
    cases result <;> trivial
  intro s k hseen
  refine (round_meets_of_rules gatekeeper_rules hseen).mono ?_ fun _ _ _ _ => trivial
  intro done _ _ hs'
  cases done with
  | false => exact hs'
  | true => trivial

theorem start_before_seal {e : Sigma Answer} (hstart : e.1.isStart = true) (hk : (gatekeeper r).permits k e.1)
    (he : undisturbed r k e = true) :
    e.2.moment.sent = 0 ∧ e.2.moment.elapsed < r.config.budgets.runBudget := by
  obtain ⟨q, a⟩ := e
  cases q with
  | start =>
    obtain ⟨hbudget, hsent⟩ : k.Passed r := hk
    simp only [undisturbed, Bool.and_eq_true, Bool.or_eq_true, decide_eq_true_iff, beq_iff_eq] at he
    obtain ⟨⟨hlives, hsame⟩, hlasts⟩ := he
    exact ⟨hsame.trans (hlives.elim hsent id), hlasts.resolve_left (Nat.not_le_of_lt hbudget)⟩
  | _ => cases hstart

theorem starts_before_seal {trace : List (Sigma Answer)} (hpermitted : (gatekeeper r).Permitted k trace)
    (h : allUndisturbed r k trace = true) {e : Sigma Answer} (he : e ∈ trace)
    (hstart : e.1.isStart = true) :
    e.2.moment.sent = 0 ∧ e.2.moment.elapsed < r.config.budgets.runBudget := by
  induction trace generalizing k with
  | nil => cases he
  | cons _ _ ih =>
    obtain ⟨hfirst, hrest⟩ := Bool.and_eq_true_iff.mp h
    obtain rfl | he := List.mem_cons.mp he
    · exact start_before_seal hstart hpermitted.1 hfirst
    · exact ih hpermitted.2 hrest he

end

/-- In a run of truthful answers in which the sender of a signal lives until the last checks of a pass, and no
signal is sent and the run budget lasts between them and the start, no worker is started after a signal or
at or beyond the run budget. -/
theorem no_start_after_seal (r : LoopRunner) {σ : Type} (h : σ → (q : Query) → Answer q × σ) (t : σ)
    (n : Nat) (htruth : ∀ e ∈ (r.run n).trace h t, truthful e = true)
    (hcalm : allUndisturbed r {} ((r.run n).trace h t) = true) :
    ∀ e ∈ (r.run n).trace h t, e.1.isStart = true →
      e.2.moment.sent = 0 ∧ e.2.moment.elapsed < r.config.budgets.runBudget := by
  intro e he hstart
  have hexpected : (gatekeeper r).Expected {} ((r.run n).trace h t) :=
    Calls.Monitor.expected_of_forall (fun _ _ _ h => h) htruth _
  exact starts_before_seal ((run_gated r n).permitted hexpected) hcalm he hstart

theorem no_start_after_seal_solo :
    ((soloRunner.run 1).trace (serve fun _ q => ⟨calm q, ⟨0, 0⟩⟩) (.empty, 0)).any
        (·.1.isStart) = true ∧
      ∀ e ∈ (soloRunner.run 1).trace (serve fun _ q => ⟨calm q, ⟨0, 0⟩⟩) (.empty, 0),
        e.1.isStart = true →
          e.2.moment.sent = 0 ∧ e.2.moment.elapsed < soloRunner.config.budgets.runBudget :=
  ⟨by decide +kernel, no_start_after_seal soloRunner _ _ 1 (by decide +kernel) (by decide +kernel)⟩

def consultingRunner : LoopRunner := { soloRunner with taskSelector := some "decider" }

def slowScript (i : Nat) (q : Query) : Answer q :=
  let moment : Moment := if i < 14 then ⟨9 * 1000000000, 0⟩ else ⟨11 * 1000000000, 1⟩
  match q with
  | .now => ⟨moment.elapsed, moment⟩
  | q => ⟨calm q, moment⟩

/-- Every answer is truthful and time only moves on; yet a worker is started after a signal was sent, and
a second after the run budget: both came while the decision provider was asked. -/
theorem consultation_breaks_seal :
    (∀ e ∈ (consultingRunner.run 1).trace (serve slowScript) (.empty, 0), truthful e = true) ∧
      ((consultingRunner.run 1).trace (serve slowScript) (.empty, 0)).Pairwise
        (fun e e' => e.2.moment.elapsed ≤ e'.2.moment.elapsed ∧ e.2.moment.sent ≤ e'.2.moment.sent) ∧
      consultingRunner.config.budgets.runBudget = 10 * 1000000000 ∧
      (((consultingRunner.run 1).trace (serve slowScript) (.empty, 0)).filter (·.1.isStart)).map
        (·.2.moment) = [⟨11 * 1000000000, 1⟩] := by
  decide +kernel

end Campaign

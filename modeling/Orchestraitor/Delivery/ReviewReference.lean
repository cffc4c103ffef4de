import Orchestraitor.Delivery.FindingsHistory
import Orchestraitor.Delivery.ReviewPipeline

/-!
# The verdict of the review loop

What the loop decides can be said without heads, stale flags, dedup entries or convergence rules.
A generation is clean when no key it reports ever reached the blocking severity; the loop stops
at the first clean generation, or is blocked when the budget is spent.

* `Clean`                       no key reported in the generation ever reached the threshold.
-/

namespace Delivery
open Base Std List

/-! ## the reference -/

def ReviewOutcome.Reports (o : ReviewOutcome) (k : FindingId) : Prop :=
  ∃ finding ∈ o.findings, FindingId.of finding = .ok k

/-- an outcome the pipeline can consume: no blank head, no malformed finding -/
structure ReviewOutcome.Valid (o : ReviewOutcome) : Prop where
  head : ∀ head, o.head = some head → isBlank head = false
  findings : ∀ finding ∈ o.findings, ∃ k, FindingId.of finding = .ok k

def severitiesUpTo (outs : Nat → ReviewOutcome) (g : Nat) (k : FindingId) : Set Severity :=
  {s | ∃ i ≤ g, ∃ finding ∈ (outs i).findings, FindingId.of finding = .ok k ∧ finding.severity = s}

def Clean (minimumToBlock : Severity) (outs : Nat → ReviewOutcome) (g : Nat) : Prop :=
  ∀ k, (outs g).Reports k → ∀ m, IsGreatest (severitiesUpTo outs g k) m → ¬ minimumToBlock ≤ m

def ReviewLoopConfig.loopBudget (config : ReviewLoopConfig) : Nat :=
  min config.maxReviewLoops defaultHardLoopCeiling

variable {g : Nat} {s : Severity} {k : FindingId} {ops : List LedgerOp} {o : ReviewOutcome}

theorem satAdd32_generation {config : ReviewLoopConfig} (hg : g < config.loopBudget) :
    satAdd32 g 1 = g + 1 := by
  have hceil : config.loopBudget ≤ defaultHardLoopCeiling := Nat.min_le_right _ _
  apply satAdd32_eq
  simp only [defaultHardLoopCeiling, u32Max] at hceil ⊢
  omega

def ReviewLoopConfig.Stops (config : ReviewLoopConfig) (outs : Nat → ReviewOutcome) (g : Nat) :
    Prop :=
  config.stopWhenNoBlockingFindings = true ∧ Clean config.minimumSeverityToBlock outs g

/-- the verdict, and after how many generations it is reached -/
structure ReferenceRun (config : ReviewLoopConfig) (outs : Nat → ReviewOutcome)
    (verdict : ReviewVerdict) (n : Nat) : Prop where
  stops_iff : verdict = .stopNoBlockingFindings ↔
    config.stopWhenNoBlockingFindings = true ∧
      ∃ g < config.loopBudget, Clean config.minimumSeverityToBlock outs g
  first : verdict = .stopNoBlockingFindings → ∃ g, n = g + 1 ∧
    Clean config.minimumSeverityToBlock outs g ∧
      ∀ i < g, ¬ Clean config.minimumSeverityToBlock outs i
  blocked : verdict ≠ .stopNoBlockingFindings →
    (∃ reason, verdict = .maxLoopsBlocked reason) ∧ n = config.loopBudget
  budget : n ≤ config.loopBudget

/-! ## a generation as ledger operations -/

def reportedKeys (reported : OrdSet FindingId) : List ReviewFinding → OrdSet FindingId
  | [] => reported
  | finding :: rest =>
    match FindingId.of finding with
    | .ok k => reportedKeys (reported.insert k) rest
    | .error _ => reportedKeys reported rest

theorem mem_reportedKeys (k : FindingId) (findings : List ReviewFinding)
    (reported : OrdSet FindingId) : k ∈ reportedKeys reported findings ↔
      k ∈ reported ∨ ∃ finding ∈ findings, FindingId.of finding = .ok k := by
  induction findings generalizing reported with
  | nil => simp [reportedKeys]
  | cons finding _ ih =>
    rw [reportedKeys]
    cases hid : FindingId.of finding with
    | error => simp [ih, hid]
    | ok =>
      rw [ih, OrdSet.mem_insert_iff]
      simp only [mem_cons, exists_eq_or_imp, hid, Except.ok.injEq]
      tauto

def recordOps (loopNumber : Nat) (findings : List ReviewFinding) : List LedgerOp :=
  findings.map (fun finding => .record finding loopNumber)

def generationOps (g : Nat) (o : ReviewOutcome) : List LedgerOp :=
  o.head.toList.map .noteHead ++ recordOps (g + 1) o.findings ++
    [.resolveUnreported (reportedKeys ∅ o.findings)]

def historyUpTo (outs : Nat → ReviewOutcome) : Nat → List LedgerOp
  | 0 => []
  | g + 1 => historyUpTo outs g ++ generationOps g (outs g)

theorem mem_reportsOf : s ∈ reportsOf k ops ↔ ∃ op ∈ ops, op.severityOf k = some s := by
  rw [reportsOf, mem_filterMap]

theorem mem_reportsOf_generation :
    s ∈ reportsOf k (ops ++ generationOps g o) ↔ s ∈ reportsOf k ops ∨
      ∃ finding ∈ o.findings, FindingId.of finding = .ok k ∧ finding.severity = s := by
  rw [mem_reportsOf, mem_reportsOf]
  simp only [generationOps, recordOps, mem_append, mem_map, mem_singleton,
    or_assoc, or_and_right, exists_or]
  constructor
  · rintro (h | ⟨_, ⟨_, _, rfl⟩, h⟩ | ⟨_, ⟨finding, hf, rfl⟩, h⟩ | ⟨_, rfl, h⟩)
    · exact Or.inl h
    · simp [LedgerOp.severityOf] at h
    · rw [LedgerOp.severityOf, Option.ite_none_right_eq_some, Option.some.injEq] at h
      exact Or.inr ⟨finding, hf, h⟩
    · simp [LedgerOp.severityOf] at h
  · rintro (h | ⟨finding, hf, hid, hs⟩)
    · exact Or.inl h
    · exact Or.inr (Or.inr (Or.inl ⟨_, ⟨finding, hf, rfl⟩, by simp [LedgerOp.severityOf, hid, hs]⟩))

theorem mem_reportsOf_history (outs : Nat → ReviewOutcome) (g : Nat) :
    s ∈ reportsOf k (historyUpTo outs (g + 1)) ↔ s ∈ severitiesUpTo outs g k := by
  induction g with
  | zero =>
    rw [historyUpTo, mem_reportsOf_generation]
    simp [historyUpTo, reportsOf, severitiesUpTo]
  | succ g ih =>
    rw [historyUpTo, mem_reportsOf_generation, ih]
    constructor
    · rintro (⟨i, hi, h⟩ | h)
      · exact ⟨i, by omega, h⟩
      · exact ⟨g + 1, Nat.le_refl _, h⟩
    · rintro ⟨i, hi, h⟩
      rcases Nat.lt_or_eq_of_le hi with hlt | rfl
      · exact Or.inl ⟨i, by omega, h⟩
      · exact Or.inr h

theorem live_recordOps (n : Nat) (findings : List ReviewFinding) :
    Live k (ops ++ recordOps n findings) ↔
      Live k ops ∨ ∃ finding ∈ findings, FindingId.of finding = .ok k := by
  induction findings using reverseRecOn with
  | nil => simp [recordOps]
  | append_singleton _ finding ih =>
    rw [recordOps, map_append, map_singleton, ← append_assoc, live_concat,
      ← recordOps, ih]
    have hreports : (LedgerOp.record finding n).Reports k ↔ FindingId.of finding = .ok k := by
      simp [LedgerOp.Reports, LedgerOp.severityOf]
    simp only [hreports, LedgerOp.MovesHead, LedgerOp.Excludes, not_false_eq_true, and_true,
      mem_append, mem_singleton, or_and_right, exists_or, exists_eq_left]
    rw [or_comm, or_assoc]

theorem live_generation : Live k (ops ++ generationOps g o) ↔ o.Reports k := by
  rw [generationOps, ← append_assoc, ← append_assoc, live_concat, live_recordOps]
  have hmem := mem_reportedKeys k o.findings ∅
  tauto

theorem headAfter_generation {head : String} (hhead : o.head = some head)
    (hb : isBlank head = false) : headAfter (ops ++ generationOps g o) = some (trim head) := by
  have hrecords : ∀ (current : Option String) (findings : List ReviewFinding),
      (recordOps (g + 1) findings).foldl (fun c op => op.headOf c) current = current := by
    intro _ findings
    induction findings with
    | nil => rfl
    | cons _ _ ih => exact ih
  rw [headAfter, generationOps, hhead, foldl_append, foldl_append, foldl_append,
    hrecords]
  simp [LedgerOp.headOf, hb]

/-! ## the ledger after a generation -/

theorem open_generation {e : LedgerEntry}
    (he : (ledgerAfter (ops ++ generationOps g o)).entry k = some e) (hopen : e.status = .opened) :
    e.stale = false := by
  have hrep : o.Reports k := by
    rw [generationOps, ← append_assoc, ledgerAfter_concat, FindingLedger.apply,
      FindingLedger.entry_resolveUnreported, Option.map_eq_some_iff] at he
    obtain ⟨e0, _, rfl⟩ := he
    by_contra hno
    have hout : k ∉ reportedKeys ∅ o.findings := by
      rw [mem_reportedKeys]
      simpa [ReviewOutcome.Reports] using hno
    split_ifs at hopen with hu
    · simp [LedgerEntry.resolve] at hopen
    · exact hu (FindingLedger.unreported_iff.mpr ⟨hopen, hout⟩)
  exact (((tracks_ledgerAfter _ k).tracked e he).live.mpr (live_generation.mpr hrep)).2

theorem staleBlocking_generation {input : ConvergenceInput}
    (hl : input.findingLedger = ledgerAfter (ops ++ generationOps g o)) :
    staleBlockingCount input = 0 := by
  rw [staleBlockingCount, OrdMap.countP_eq_card, Finset.card_eq_zero,
    Finset.eq_empty_iff_forall_notMem]
  intro k hk
  obtain ⟨e, he, hstale⟩ := OrdMap.mem_keysWith.mp hk
  simp only [LedgerEntry.staleBlocking, Bool.and_eq_true, beq_iff_eq] at hstale
  rw [hl] at he
  have := open_generation he hstale.1.1
  rw [hstale.1.2] at this
  exact absurd this (by simp)

theorem blocking_zero_iff_clean (minimumToBlock : Severity) (outs : Nat → ReviewOutcome) (g : Nat) :
    (ledgerAfter (historyUpTo outs (g + 1))).blockingOpenCount minimumToBlock = 0 ↔
      Clean minimumToBlock outs g := by
  have hset : ∀ k, {a | a ∈ reportsOf k (historyUpTo outs (g + 1))} = severitiesUpTo outs g k :=
    fun k => Set.ext (fun s => mem_reportsOf_history outs g)
  have hlive : ∀ k, Live k (historyUpTo outs (g + 1)) ↔ (outs g).Reports k :=
    fun k => live_generation
  rw [FindingLedger.blockingOpenCount, OrdMap.countP_eq_card, Finset.card_eq_zero,
    Finset.eq_empty_iff_forall_notMem]
  constructor
  · intro h k hrep m hm hle
    refine h k ((mem_blocking _ _ k).mpr ⟨(hlive k).mpr hrep, m, ?_, hle⟩)
    rw [hset]
    exact hm
  · intro h k hk
    obtain ⟨hl, m, hm, hle⟩ := (mem_blocking _ _ k).mp hk
    rw [hset] at hm
    exact h k ((hlive k).mp hl) m hm hle

/-! ## one generation of the loop -/

namespace ReviewPipeline

def startedIn (journal : List ReviewPipelineEvent) : List Nat :=
  journal.filterMap (fun
    | .generationStarted g => some g
    | _ => none)

theorem startedIn_concat (journal : List ReviewPipelineEvent) (event : ReviewPipelineEvent) :
    startedIn (journal ++ [event]) = startedIn journal ++ startedIn [event] := by
  rw [startedIn, filterMap_append]
  rfl

theorem recordAll_ok (n : Nat) (findings : List ReviewFinding)
    (hv : ∀ finding ∈ findings, ∃ k, FindingId.of finding = .ok k) (l : FindingLedger)
    (reported : OrdSet FindingId) (newFindings : Nat) :
    ∃ count, recordAll l n findings reported newFindings =
      (.ok (reportedKeys reported findings, count), (recordOps n findings).foldl .apply l) := by
  induction findings generalizing l reported newFindings with
  | nil => exact ⟨newFindings, rfl⟩
  | cons finding _ ih =>
    obtain ⟨k, hk⟩ := hv finding mem_cons_self
    obtain ⟨outcome, ho⟩ := (l.record_ok n hk).1
    have hstep : l.record finding n = (.ok (k, outcome), (l.record finding n).2) :=
      Prod.ext ho rfl
    obtain ⟨count, hc⟩ := ih (fun f hf => hv f (mem_cons_of_mem _ hf))
      (l.record finding n).2 (reported.insert k)
      (if outcome = .new then newFindings + 1 else newFindings)
    refine ⟨count, ?_⟩
    rw [recordAll, hstep, reportedKeys, hk]
    exact hc

/-- what one generation does to the pipeline -/
structure GenerationStep (outs : Nat → ReviewOutcome) (p : ReviewPipeline) (g : Nat)
    (r : Option (Except ReviewPipelineError ReviewVerdict) × ReviewPipeline) : Prop where
  ledger : r.2.ledger = ledgerAfter (historyUpTo outs (g + 1))
  config : r.2.config = p.config
  started : startedIn r.2.journal = startedIn p.journal
  stops : p.config.Stops outs g →
    r.1 = some (.ok .stopNoBlockingFindings) ∧ r.2.verdict = some .stopNoBlockingFindings
  continues : ¬ p.config.Stops outs g → g + 1 < p.config.loopBudget → r.1 = none
  blocks : ¬ p.config.Stops outs g → p.config.loopBudget ≤ g + 1 →
    ∃ reason, r.1 = some (.ok (.maxLoopsBlocked reason)) ∧
      r.2.verdict = some (.maxLoopsBlocked reason)

section
variable {outs : Nat → ReviewOutcome} {p q : ReviewPipeline} {g : Nat}
  {r : Option (Except ReviewPipelineError ReviewVerdict) × ReviewPipeline}

theorem GenerationStep.transfer (h : GenerationStep outs q g r) (hc : q.config = p.config)
    (hs : startedIn q.journal = startedIn p.journal) : GenerationStep outs p g r := by
  obtain ⟨ledger, config, started, stops, continues, blocks⟩ := h
  rw [hc] at config stops continues blocks
  rw [hs] at started
  exact ⟨ledger, config, started, stops, continues, blocks⟩

theorem convergenceInput_eq (p : ReviewPipeline) (n : Nat) (head : Option String) :
    p.convergenceInput n head =
      { findingLedger := p.ledger, config := p.config, completedLoop := n, generationHead := head,
        blockingThreshold := p.config.minimumSeverityToBlock,
        hardLoopCeiling := defaultHardLoopCeiling } := by
  cases head <;> rfl

theorem convergenceInput_valid (p : ReviewPipeline) (n : Nat) {o : ReviewOutcome}
    (ho : o.Valid) : (p.convergenceInput (n + 1) o.head).validate = .ok () := by
  have hhead : o.head.any isBlank = false := by
    cases h : o.head with
    | none => rfl
    | some head => exact ho.head head h
  rw [convergenceInput_eq, ConvergenceInput.validate]
  simp [p.valid, defaultHardLoopCeiling, hhead]

theorem conclude_step (hl : p.ledger = ledgerAfter (historyUpTo outs (g + 1)))
    (ho : (outs g).Valid) :
    GenerationStep outs p g (p.conclude g (p.convergenceInput (g + 1) (outs g).head)) := by
  have hin := convergenceInput_eq p (g + 1) (outs g).head
  have hstale : staleBlockingCount (p.convergenceInput (g + 1) (outs g).head) = 0 :=
    staleBlocking_generation (by rw [hin]; exact hl)
  have hhead : currentGenerationConfirmed (p.convergenceInput (g + 1) (outs g).head) = true := by
    rw [hin, currentGenerationConfirmed]
    cases hh : (outs g).head with
    | none => rfl
    | some head =>
      have hcur : p.ledger.currentHead = some (trim head) := by
        rw [hl, currentHead_ledgerAfter]
        exact headAfter_generation hh (ho.head head hh)
      simp [hcur]
  have heval := evaluate_confirmed _ (by rw [hin]; exact Nat.le_add_left 1 g) hstale hhead
  rw [conclude, convergenceInput_valid p g ho]
  rw [hin] at heval ⊢
  dsimp only [ConvergenceInput.loopBudget] at heval ⊢
  rw [hl, blocking_zero_iff_clean] at heval
  have hbudget : min p.config.maxReviewLoops defaultHardLoopCeiling = p.config.loopBudget := rfl
  have hstops : Clean p.config.minimumSeverityToBlock outs g ∧
      p.config.stopWhenNoBlockingFindings = true ↔ p.config.Stops outs g := and_comm
  rw [hstops] at heval
  obtain ⟨hstop, hrest⟩ := heval
  have hpush : ∀ v, startedIn (p.journal ++ [.convergenceEvaluated g v]) = startedIn p.journal :=
    fun v => (startedIn_concat _ _).trans (append_nil _)
  have hterm : ∀ v w, startedIn (p.journal ++ [.convergenceEvaluated g v] ++ [.terminated w]) =
      startedIn p.journal :=
    fun v w => ((startedIn_concat _ _).trans (append_nil _)).trans (hpush v)
  by_cases hs : p.config.Stops outs g
  · rw [hl, hstop hs]
    exact ⟨hl, rfl, hterm _ _, fun _ => ⟨rfl, rfl⟩, fun h => absurd hs h, fun h => absurd hs h⟩
  · by_cases hlt : g + 1 < p.config.loopBudget
    · rw [hl, (hrest hs).1 hlt]
      exact ⟨hl, rfl, hpush _, fun h => absurd h hs, fun _ _ => rfl, fun _ h => absurd h (by omega)⟩
    · obtain ⟨reason, hr⟩ := (hrest hs).2 (by omega)
      rw [hl, hr]
      exact ⟨hl, rfl, hterm _ _, fun h => absurd h hs, fun _ h => absurd h hlt,
        fun _ _ => ⟨reason, rfl, rfl⟩⟩

theorem recordGeneration_step
    (hl : p.ledger = ledgerAfter (historyUpTo outs g ++ (outs g).head.toList.map .noteHead))
    (hg : g < p.config.loopBudget) (ho : (outs g).Valid) :
    GenerationStep outs p g (p.recordGeneration g (outs g)) := by
  have hsat := satAdd32_generation hg
  obtain ⟨count, hc⟩ := recordAll_ok (g + 1) (outs g).findings ho.findings p.ledger ∅ 0
  -- recording and closing append the rest of the generation's operations
  have hledger : ((recordOps (g + 1) (outs g).findings).foldl .apply p.ledger
      |>.resolveUnreported (reportedKeys ∅ (outs g).findings)).2 =
        ledgerAfter (historyUpTo outs (g + 1)) := by
    rw [historyUpTo, generationOps, ← append_assoc, ← append_assoc, ledgerAfter_concat,
      ledgerAfter, foldl_append, ← ledgerAfter, ← hl]
    rfl
  rw [recordGeneration, hsat, hc]
  refine (conclude_step hledger ho).transfer rfl ?_
  exact (startedIn_concat _ _).trans (append_nil _)

theorem runGeneration_step (hl : p.ledger = ledgerAfter (historyUpTo outs g))
    (hg : g < p.config.loopBudget) (ho : (outs g).Valid) :
    GenerationStep outs p g (p.runGeneration g (outs g)) := by
  rw [runGeneration]
  cases hh : (outs g).head with
  | none =>
    refine recordGeneration_step ?_ hg ho
    rw [hh, hl]
    simp
  | some head =>
    have hb : ¬ isBlank head = true := by simp [ho.head head hh]
    have hnote : p.ledger.noteHead head = (.ok (), (p.ledger.noteHead head).2) := by
      unfold FindingLedger.noteHead
      split_ifs <;> rfl
    dsimp only
    rw [hnote]
    have hstep : GenerationStep outs (p.setLedger (p.ledger.noteHead head).2) g
        ((p.setLedger (p.ledger.noteHead head).2).recordGeneration g (outs g)) := by
      refine recordGeneration_step ?_ hg ho
      show (p.ledger.noteHead head).2 = _
      rw [hh, Option.toList_some, map_singleton, ledgerAfter_concat, ← hl]
      rfl
    exact hstep.transfer rfl rfl

end

/-! ## the whole loop -/

section
variable {σ : Type} (review : Executor σ) (reviewers : ReviewerSet) (s : σ)

def stateAt : Nat → σ
  | 0 => s
  | g + 1 => (review (stateAt g) { generation := g, reviewers := reviewers }).2

def outcomeAt (g : Nat) : ReviewOutcome :=
  (review (stateAt review reviewers s g) { generation := g, reviewers := reviewers }).1

def generationAt (g : Nat) (s : σ) (p : ReviewPipeline) :
    Option (Except ReviewPipelineError ReviewVerdict) × ReviewPipeline :=
  (p.pushEvent (.generationStarted g)).runGeneration g
    (review s { generation := g, reviewers := reviewers }).1

theorem reviewLoop_done {fuel g : Nat} {p : ReviewPipeline}
    {result : Except ReviewPipelineError ReviewVerdict}
    (h : (generationAt review reviewers g s p).1 = some result) :
    reviewLoop review reviewers (fuel + 1) g s p =
      some (result, (generationAt review reviewers g s p).2,
        (review s { generation := g, reviewers := reviewers }).2) := by
  rw [reviewLoop]
  unfold generationAt at h ⊢
  split <;> simp_all

theorem reviewLoop_next {fuel g : Nat} {p : ReviewPipeline}
    (h : (generationAt review reviewers g s p).1 = none) :
    reviewLoop review reviewers (fuel + 1) g s p = reviewLoop review reviewers fuel (satAdd32 g 1)
        (review s { generation := g, reviewers := reviewers }).2
        (generationAt review reviewers g s p).2 := by
  rw [reviewLoop]
  unfold generationAt at h ⊢
  split <;> simp_all

theorem reviewLoop_reference (fuel g : Nat) (p : ReviewPipeline)
    (hl : p.ledger = ledgerAfter (historyUpTo (outcomeAt review reviewers s) g))
    (hs : startedIn p.journal = range g) (hg : g < p.config.loopBudget)
    (hfuel : p.config.loopBudget ≤ g + fuel)
    (hv : ∀ i < p.config.loopBudget, (outcomeAt review reviewers s i).Valid)
    (hno : ∀ i < g, ¬ p.config.Stops (outcomeAt review reviewers s) i) :
    ∃ verdict n p', reviewLoop review reviewers fuel g (stateAt review reviewers s g) p =
        some (.ok verdict, p', stateAt review reviewers s n) ∧
      ReferenceRun p.config (outcomeAt review reviewers s) verdict n ∧
      p'.verdict = some verdict ∧ startedIn p'.journal = range n := by
  -- induction on the fuel; the generations left never exceed it
  induction fuel generalizing g p with
  | zero => omega
  | succ _ ih =>
    have hstep : GenerationStep (outcomeAt review reviewers s)
        (p.pushEvent (.generationStarted g)) g
        (generationAt review reviewers g (stateAt review reviewers s g) p) :=
      runGeneration_step hl hg (hv g hg)
    have hstarted : startedIn (generationAt review reviewers g (stateAt review reviewers s g)
        p).2.journal = range (g + 1) := by
      rw [hstep.started]
      exact (startedIn_concat _ _).trans (by rw [hs, range_succ]; rfl)
    by_cases hst : p.config.Stops (outcomeAt review reviewers s) g
    · obtain ⟨hr, hverdict⟩ := hstep.stops hst
      refine ⟨.stopNoBlockingFindings, g + 1, _, reviewLoop_done _ _ _ hr, ?_, hverdict, hstarted⟩
      refine ⟨iff_of_true rfl ⟨hst.1, g, hg, hst.2⟩, fun _ => ⟨g, rfl, hst.2, ?_⟩,
        fun h => absurd rfl h, hg⟩
      exact fun i hi hclean => hno i hi ⟨hst.1, hclean⟩
    · have hno' : ∀ i < g + 1, ¬ p.config.Stops (outcomeAt review reviewers s) i := by
        intro i hi
        rcases Nat.lt_succ_iff_lt_or_eq.mp hi with hlt | rfl
        · exact hno i hlt
        · exact hst
      by_cases hlt : g + 1 < p.config.loopBudget
      · have hconfig : (generationAt review reviewers g (stateAt review reviewers s g)
            p).2.config = p.config := hstep.config
        have hnext := ih (g + 1) _ hstep.ledger hstarted (by rw [hconfig]; exact hlt)
          (by rw [hconfig]; omega) (by rw [hconfig]; exact hv) (by rw [hconfig]; exact hno')
        rw [reviewLoop_next _ _ _ (hstep.continues hst hlt), satAdd32_generation hg]
        rw [hconfig] at hnext
        exact hnext
      · have hbudget : g + 1 = p.config.loopBudget := by omega
        obtain ⟨reason, hr, hverdict⟩ := hstep.blocks hst (Nat.le_of_eq hbudget.symm)
        refine ⟨.maxLoopsBlocked reason, g + 1, _, reviewLoop_done _ _ _ hr, ?_, hverdict,
          hstarted⟩
        refine ⟨iff_of_false (by simp) ?_, fun h => absurd h (by simp),
          fun _ => ⟨⟨reason, rfl⟩, hbudget⟩, Nat.le_of_eq hbudget⟩
        rintro ⟨hstop, i, hi, hclean⟩
        exact hno' i (by omega) ⟨hstop, hclean⟩

end

theorem new_ok {config : ReviewLoopConfig} {p : ReviewPipeline} (h : new config = .ok p) :
    p.config = config ∧ p.ledger = .new ∧ p.journal = [] ∧ p.verdict = none := by
  unfold new at h
  split at h
  · simp at h
  · split at h
    · simp at h
    · rw [← Except.ok.inj h]
      exact ⟨rfl, rfl, rfl, rfl⟩

theorem loopBudget_pos (p : ReviewPipeline) : 0 < p.config.loopBudget := by
  have h := (ReviewLoopConfig.validate_ok p.valid).1
  simp only [ReviewLoopConfig.loopBudget, defaultHardLoopCeiling]
  omega

/-- on a non-empty change set a fresh pipeline returns the reference verdict of the executor's
answers, with one executor call for each generation and never more calls than the loop budget -/
theorem trigger_matches_reference {σ : Type} (config : ReviewLoopConfig) (p : ReviewPipeline)
    (hnew : new config = .ok p) (changeSet : ChangeSetProfile)
    (hfiles : changeSet.changedFiles ≠ []) (review : Executor σ) (s : σ) :
    ∃ reviewers, selectReviewers changeSet config = .ok reviewers ∧
      ((∀ g < config.loopBudget, (outcomeAt review reviewers s g).Valid) →
        ∀ fuel, config.loopBudget ≤ fuel →
          ∃ verdict n p', trigger fuel p changeSet review s =
              some (.ok verdict, p', stateAt review reviewers s n) ∧
            ReferenceRun config (outcomeAt review reviewers s) verdict n ∧
            p'.verdict = some verdict ∧ startedIn p'.journal = List.range n) := by
  obtain ⟨rfl, hledger, hjournal, hverdict⟩ := new_ok hnew
  obtain ⟨slots, hslots⟩ := p.selectable
  obtain ⟨reviewers, hsel⟩ := selectReviewers_total hslots changeSet
  refine ⟨reviewers, hsel, fun hv fuel hfuel => ?_⟩
  have hempty : ¬ changeSet.changedFiles.isEmpty = true := by simpa using hfiles
  have hopen : ¬ p.verdict.isSome = true := by simp [hverdict]
  rw [trigger, if_neg hopen, if_neg hempty, hsel]
  have hstart : startedIn (p.journal ++ [.triggered reviewers]) = range 0 := by
    rw [hjournal]
    rfl
  exact reviewLoop_reference review reviewers s fuel 0
    (({ p with reviewers := some reviewers } : ReviewPipeline).pushEvent (.triggered reviewers))
    hledger hstart (loopBudget_pos p) (by rw [Nat.zero_add]; exact hfuel) hv
    (fun i hi => absurd hi (Nat.not_lt_zero i))

def samplePipeline : ReviewPipeline := (new {}).toOption.get (by decide)

def sampleChange : ChangeSetProfile := { changedFiles := ["src/lib.rs"] }

def sampleFinding : ReviewFinding where
  severity := .high
  evidence := "unchecked index"
  affectedPaths := ["./src/lib.rs"]
  rule := "bounds"
  line := some 3
  lineEnd := none
  remediation := "check the bound"

def sampleReview : Executor (List ReviewRequest) := fun log request =>
  (if request.generation = 0 then { head := some "h0", findings := [sampleFinding] }
    else { head := some "h1" }, log ++ [request])

theorem trigger_matches_reference_sample :
    ∃ p' log, trigger 3 samplePipeline sampleChange sampleReview [] =
        some (.ok .stopNoBlockingFindings, p', log) ∧
      log.map ReviewRequest.generation = [0, 1] ∧ startedIn p'.journal = [0, 1] := by
  obtain ⟨reviewers, -, href⟩ := trigger_matches_reference {} samplePipeline (ok_of_isSome _)
    sampleChange (by decide) sampleReview []
  have hvalid : ∀ g, (outcomeAt sampleReview reviewers [] g).Valid := by
    intro g
    unfold outcomeAt sampleReview
    split_ifs
    · exact ⟨fun head h => by cases h; decide, fun finding h => by
        rw [mem_singleton.mp h]
        exact ⟨_, rfl⟩⟩
    · exact ⟨fun head h => by cases h; decide, fun finding h => absurd h not_mem_nil⟩
  obtain ⟨verdict, n, p', hrun, -⟩ := href (fun g _ => hvalid g) 3 (by decide)
  have hlog : (trigger 3 samplePipeline sampleChange sampleReview []).map
      (fun r => (r.1, r.2.2.map ReviewRequest.generation, startedIn r.2.1.journal)) =
        some (.ok .stopNoBlockingFindings, [0, 1], [0, 1]) := by decide +kernel
  rw [hrun] at hlog
  simp only [Option.map_some, Option.some.injEq, Prod.mk.injEq] at hlog
  exact ⟨p', _, hlog.1 ▸ hrun, hlog.2.1, hlog.2.2⟩

end ReviewPipeline
end Delivery

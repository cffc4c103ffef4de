import Orchestraitor.Base.History
import Orchestraitor.Delivery.Findings

/-!
# The ledger as a function of its history

The three ledger operations act on status, stale flag, severity and head of many entries at
once, in any order.  Read key by key the outcome is simple: an entry exists exactly for the keys
ever reported, its counters summarise the reports of that key, and it is open and not stale
exactly when the key was reported since the head last moved and no later generation was closed
without it.

* `LedgerOp`, `ledgerAfter`     the operations and a run of them from the empty ledger;
* `Live`                        reported at the current head, and never left out since.
-/

namespace Delivery
open Base Std List FindingId FindingLedger

inductive LedgerOp where
  | noteHead (head : String)
  | record (finding : ReviewFinding) (loopNumber : Nat)
  | resolveUnreported (reported : OrdSet FindingId)

namespace LedgerOp

def severityOf (k : FindingId) : LedgerOp → Option Severity
  | .record finding _ => if FindingId.of finding = .ok k then some finding.severity else none
  | _ => none

/-- an accepted report of `k` -/
def Reports (k : FindingId) (op : LedgerOp) : Prop := (op.severityOf k).isSome = true

/-- a generation closed without `k` -/
def Excludes (k : FindingId) : LedgerOp → Prop
  | .resolveUnreported reported => k ∉ reported
  | _ => False

def headOf (current : Option String) : LedgerOp → Option String
  | .noteHead head => if isBlank head then current else some (trim head)
  | _ => current

end LedgerOp

def reportsOf (k : FindingId) (ops : List LedgerOp) : List Severity :=
  ops.filterMap (LedgerOp.severityOf k)

variable (ops : List LedgerOp)

def headAfter : Option String :=
  ops.foldl (fun current op => op.headOf current) none

/-- an effective head change: an accepted head that differs from the one before -/
def LedgerOp.MovesHead (pre : List LedgerOp) : LedgerOp → Prop
  | .noteHead head => FindingLedger.movesTo (headAfter pre) head = true
  | _ => False

/-- `k` was recorded after the last effective head change -/
def ReportedAtHead (k : FindingId) (ops : List LedgerOp) : Prop :=
  Since (fun _ op => op.Reports k) (fun pre op => ¬ op.MovesHead pre) ops

def KeptOpen (k : FindingId) (ops : List LedgerOp) : Prop :=
  Since (fun _ op => op.Reports k) (fun _ op => ¬ op.Reports k ∧ ¬ op.Excludes k) ops

def Live (k : FindingId) (ops : List LedgerOp) : Prop := ReportedAtHead k ops ∧ KeptOpen k ops

/-! ## the history, one operation longer -/

theorem reportsOf_concat (k : FindingId) (ops : List LedgerOp) (op : LedgerOp) :
    reportsOf k (ops ++ [op]) = reportsOf k ops ++ (op.severityOf k).toList := by
  rw [reportsOf, reportsOf]
  cases h : op.severityOf k <;> simp [h]

theorem headAfter_concat (op : LedgerOp) : headAfter (ops ++ [op]) = op.headOf (headAfter ops) := by
  rw [headAfter, foldl_append]
  rfl

theorem live_concat {k : FindingId} {ops : List LedgerOp} {op : LedgerOp} : Live k (ops ++ [op]) ↔
      op.Reports k ∨ (Live k ops ∧ ¬ op.MovesHead ops ∧ ¬ op.Excludes k) := by
  unfold Live ReportedAtHead KeptOpen
  rw [since_concat, since_concat]
  by_cases hr : op.Reports k
  · simp [hr]
  · simp only [hr]
    tauto

/-! ## the ledger against its history -/

namespace FindingLedger

def apply (l : FindingLedger) : LedgerOp → FindingLedger
  | .noteHead head => (l.noteHead head).2
  | .record finding loopNumber => (l.record finding loopNumber).2
  | .resolveUnreported reported => (l.resolveUnreported reported).2

theorem currentHead_apply (l : FindingLedger) (op : LedgerOp) :
    (l.apply op).currentHead = op.headOf l.currentHead := by
  cases op with
  | noteHead head => exact l.currentHead_noteHead head
  | record finding loopNumber =>
    cases hid : of finding with
    | error =>
      show (l.record finding loopNumber).2.currentHead = l.currentHead
      rw [l.record_error loopNumber hid]
    | ok => exact (l.record_ok loopNumber hid).2.1
  | resolveUnreported => rfl

end FindingLedger

def ledgerAfter : FindingLedger := ops.foldl FindingLedger.apply .new

theorem ledgerAfter_concat (op : LedgerOp) :
    ledgerAfter (ops ++ [op]) = (ledgerAfter ops).apply op := by
  rw [ledgerAfter, foldl_append]
  rfl

theorem currentHead_ledgerAfter : (ledgerAfter ops).currentHead = headAfter ops := by
  induction ops using reverseRecOn with
  | nil => rfl
  | append_singleton _ _ ih =>
    rw [ledgerAfter_concat, currentHead_apply, ih, headAfter_concat]

/-- an entry of `k` agrees with the history -/
structure EntryTracks (ops : List LedgerOp) (k : FindingId) (e : LedgerEntry) : Prop where
  maxSeverity : IsGreatest {s | s ∈ reportsOf k ops} e.maxSeverity
  seen : e.firstSeenLoop ≤ e.lastSeenLoop
  occurrences : e.occurrences = min (reportsOf k ops).length u32Max
  live : (e.status = .opened ∧ e.stale = false) ↔ Live k ops

/-- `k` has an entry exactly when it was ever reported, and the entry agrees with the history -/
structure Tracks (ops : List LedgerOp) (l : FindingLedger) (k : FindingId) : Prop where
  untracked : l.entry k = none ↔ reportsOf k ops = []
  tracked : ∀ e, l.entry k = some e → EntryTracks ops k e

def LedgerEntry.summary (e : LedgerEntry) : Severity × Nat × Nat × Nat :=
  (e.maxSeverity, e.firstSeenLoop, e.lastSeenLoop, e.occurrences)

section
variable {ops : List LedgerOp} {l l' : FindingLedger} {k : FindingId} {op : LedgerOp}

theorem Tracks.frame {f : LedgerEntry → LedgerEntry} (h : Tracks ops l k)
    (hop : op.severityOf k = none) (he : l'.entry k = (l.entry k).map f)
    (hf : ∀ e, (f e).summary = e.summary)
    (hlive : ∀ e, ((f e).status = .opened ∧ (f e).stale = false) ↔
      (e.status = .opened ∧ e.stale = false) ∧ ¬ op.MovesHead ops ∧ ¬ op.Excludes k) :
    Tracks (ops ++ [op]) l' k := by
  have hreports : reportsOf k (ops ++ [op]) = reportsOf k ops := by
    rw [reportsOf_concat, hop, Option.toList_none, append_nil]
  have hno : ¬ op.Reports k := by simp [LedgerOp.Reports, hop]
  refine ⟨by rw [he, Option.map_eq_none_iff, hreports, h.untracked], ?_⟩
  intro _ he'
  rw [he, Option.map_eq_some_iff] at he'
  obtain ⟨e, hke, rfl⟩ := he'
  have ht := h.tracked e hke
  have hsum := hf e
  simp only [LedgerEntry.summary, Prod.mk.injEq] at hsum
  obtain ⟨hmax, hfirst, hlast, hocc⟩ := hsum
  constructor
  · rw [hreports, hmax]
    exact ht.maxSeverity
  · rw [hfirst, hlast]
    exact ht.seen
  · rw [hreports, hocc]
    exact ht.occurrences
  · rw [hlive e, ht.live, live_concat]
    simp [hno]

theorem isGreatest_concat {reports : List Severity} {m s : Severity}
    (h : IsGreatest {a | a ∈ reports} m) : IsGreatest {a | a ∈ reports ++ [s]} (max m s) := by
  constructor
  · rcases max_choice m s with hm | hm
    · rw [hm]
      exact mem_append_left _ h.1
    · rw [hm]
      simp
  · intro a ha
    rcases mem_append.mp ha with ha | ha
    · exact Std.le_trans (h.2 ha) (le_max_left m s)
    · rw [mem_singleton.mp ha]
      exact le_max_right m s

theorem Tracks.report {finding : ReviewFinding} (loopNumber : Nat) (h : Tracks ops l k)
    (hid : of finding = .ok k) :
    Tracks (ops ++ [.record finding loopNumber]) (l.record finding loopNumber).2 k := by
  have hsev : (LedgerOp.record finding loopNumber).severityOf k = some finding.severity :=
    if_pos hid
  have hreports : reportsOf k (ops ++ [.record finding loopNumber]) =
      reportsOf k ops ++ [finding.severity] := by
    rw [reportsOf_concat, hsev, Option.toList_some]
  have hlive : Live k (ops ++ [.record finding loopNumber]) :=
    live_concat.mpr (Or.inl (by simp [LedgerOp.Reports, hsev]))
  have hentry : (l.record finding loopNumber).2.entry k =
      some (l.reportOn k finding loopNumber) := by
    rw [(l.record_ok loopNumber hid).2.2, if_pos rfl]
  refine ⟨by simp [hentry, hreports], ?_⟩
  intro _ he'
  rw [hentry, Option.some.injEq] at he'
  subst he'
  unfold reportOn
  cases hk : l.entry k with
  | none =>
    -- the first report of `k`
    rw [h.untracked.mp hk] at hreports
    refine ⟨?_, Nat.le_refl _, ?_, by simp [LedgerEntry.first, hlive]⟩
    · rw [hreports]
      simp [LedgerEntry.first]
    · rw [hreports]
      rfl
  | some e =>
    have ht := h.tracked e hk
    refine ⟨?_, ?_, ?_, by simp [LedgerEntry.report, hlive]⟩
    · rw [hreports, LedgerEntry.report_maxSeverity]
      exact isGreatest_concat ht.maxSeverity
    · exact Nat.le_trans ht.seen (Nat.le_max_left _ _)
    · show satAdd32 e.occurrences 1 = _
      rw [hreports, ht.occurrences, length_append, length_singleton, satAdd32]
      omega

theorem Tracks.step (h : Tracks ops l k) (hhead : l.currentHead = headAfter ops)
    (op : LedgerOp) : Tracks (ops ++ [op]) (l.apply op) k := by
  cases op with
  | noteHead head =>
    by_cases hm : movesTo (headAfter ops) head = true
    · refine h.frame (f := LedgerEntry.flagStale) rfl ?_ ?_ ?_
      · exact (l.entry_noteHead head k).trans (by rw [hhead, if_pos hm])
      · intro e
        unfold LedgerEntry.flagStale
        split_ifs <;> rfl
      · intro e
        have := e.flagStale_live
        simp [LedgerOp.MovesHead, hm, LedgerEntry.live] at this ⊢
        exact this
    · refine h.frame (f := id) rfl ?_ (fun e => rfl) ?_
      · refine (l.entry_noteHead head k).trans ?_
        rw [hhead, if_neg hm, Option.map_id, id]
      · simp [LedgerOp.MovesHead, hm, LedgerOp.Excludes]
  | record finding loopNumber =>
    by_cases hid : of finding = .ok k
    · exact h.report loopNumber hid
    · refine h.frame (f := id) (if_neg hid) ?_ (fun e => rfl) ?_
      · show (l.record finding loopNumber).2.entry k = _
        rw [Option.map_id, id]
        cases hk : of finding with
        | error => rw [l.record_error loopNumber hk]
        | ok =>
          rw [(l.record_ok loopNumber hk).2.2, if_neg]
          rintro rfl
          exact hid hk
      · simp [LedgerOp.MovesHead, LedgerOp.Excludes]
  | resolveUnreported reported =>
    refine h.frame rfl (l.entry_resolveUnreported reported k) ?_ ?_
    · intro e
      split_ifs <;> rfl
    · intro e
      by_cases hk : k ∈ reported
      · have hno : ¬ unreported reported k e = true := by
          simp [unreported_iff, hk]
        simp [hno, LedgerOp.MovesHead, LedgerOp.Excludes, hk]
      · -- an open entry is resolved, a resolved one stays as it is
        split_ifs with hu
        · simp [LedgerEntry.resolve, LedgerOp.Excludes, hk]
        · have hs : ¬ e.status = .opened := fun hs =>
            hu (unreported_iff.mpr ⟨hs, hk⟩)
          simp [hs]

theorem tracks_ledgerAfter (ops : List LedgerOp) (k : FindingId) :
    Tracks ops (ledgerAfter ops) k := by
  induction ops using reverseRecOn with
  | nil =>
    refine ⟨by simp [ledgerAfter, reportsOf], ?_⟩
    intro e he
    simp [ledgerAfter] at he
  | append_singleton ops op ih =>
    rw [ledgerAfter_concat]
    exact ih.step (currentHead_ledgerAfter ops) op

end

/-! ## consequences -/

namespace FindingLedger

variable (l : FindingLedger)

theorem countP_id (k : FindingId) :
    l.entries.countP (fun _ e => e.id == k) = if l.entry k = none then 0 else 1 := by
  have hkeys : ∀ a, a ∈ l.entries.keysWith (fun _ e => e.id == k) ↔ a = k ∧ l.entry k ≠ none := by
    intro a
    rw [OrdMap.mem_keysWith]
    constructor
    · rintro ⟨e, he, hid⟩
      rw [l.keyed a e he, beq_iff_eq] at hid
      subst hid
      exact ⟨rfl, by simp [entry, he]⟩
    · rintro ⟨rfl, hne⟩
      obtain ⟨e, he⟩ := Option.ne_none_iff_exists'.mp hne
      exact ⟨e, he, by simp [l.keyed a e he]⟩
  rw [OrdMap.countP_eq_card]
  split_ifs with hk
  · rw [Finset.card_eq_zero, Finset.eq_empty_iff_forall_notMem]
    intro a ha
    exact ((hkeys a).mp ha).2 hk
  · rw [Finset.card_eq_one]
    refine ⟨k, Finset.ext (fun a => ?_)⟩
    rw [hkeys, Finset.mem_singleton]
    exact and_iff_left hk

theorem record_accepts_iff (finding : ReviewFinding) (loopNumber : Nat) (k : FindingId) :
    (∃ outcome, (l.record finding loopNumber).1 = .ok (k, outcome)) ↔ of finding = .ok k := by
  cases hid : of finding with
  | error =>
    rw [l.record_error loopNumber hid]
    simp
  | ok =>
    obtain ⟨outcome, ho⟩ := (l.record_ok loopNumber hid).1
    rw [ho]
    simp

theorem record_rejected (finding : ReviewFinding) (loopNumber : Nat) (err : FindingError)
    (h : (l.record finding loopNumber).1 = .error err) : (l.record finding loopNumber).2 = l := by
  cases hid : of finding with
  | error => rw [l.record_error loopNumber hid]
  | ok =>
    obtain ⟨outcome, ho⟩ := (l.record_ok loopNumber hid).1
    rw [ho] at h
    exact absurd h (by simp)

theorem noteHead_rejected (head : String) (err : FindingError)
    (h : (l.noteHead head).1 = .error err) : (l.noteHead head).2 = l := by
  unfold noteHead at h ⊢
  split_ifs at h ⊢
  rfl

end FindingLedger

theorem mem_blocking (s : Severity) (k : FindingId) :
    k ∈ (ledgerAfter ops).entries.keysWith (fun _ e => e.blocking s) ↔
      Live k ops ∧ ∃ m, IsGreatest {a | a ∈ reportsOf k ops} m ∧ s ≤ m := by
  have h := tracks_ledgerAfter ops k
  rw [OrdMap.mem_keysWith]
  constructor
  · rintro ⟨e, he, hb⟩
    have ht := h.tracked e he
    simp only [LedgerEntry.blocking, LedgerEntry.live, Severity.blocks, Bool.and_eq_true,
      beq_iff_eq, Bool.not_eq_true', decide_eq_true_eq] at hb
    exact ⟨ht.live.mp hb.1, e.maxSeverity, ht.maxSeverity, hb.2⟩
  · rintro ⟨hlive, m, hm, hs⟩
    have hne : (ledgerAfter ops).entry k ≠ none := fun hnone =>
      ne_nil_of_mem hm.1 (h.untracked.mp hnone)
    obtain ⟨e, he⟩ := Option.ne_none_iff_exists'.mp hne
    have ht := h.tracked e he
    obtain ⟨hopen, hfresh⟩ := ht.live.mpr hlive
    refine ⟨e, he, ?_⟩
    simp [LedgerEntry.blocking, LedgerEntry.live, Severity.blocks, hopen, hfresh,
      ht.maxSeverity.unique hm, hs]

/-- after every sequence of operations each key ever accepted has exactly one entry, which
summarises its reports and is open and not stale exactly while the key is live; the blocking count
counts the live keys whose highest severity reaches the threshold; a rejected operation changes
nothing -/
theorem ledger_tracks_history (ops : List LedgerOp) :
    (∀ k, (ledgerAfter ops).entries.countP (fun _ e => e.id == k) =
        (if reportsOf k ops = [] then 0 else 1) ∧
      Tracks ops (ledgerAfter ops) k) ∧
    (∀ s, ∃ K : Finset FindingId,
      (∀ k, k ∈ K ↔ Live k ops ∧ ∃ m, IsGreatest {a | a ∈ reportsOf k ops} m ∧ s ≤ m) ∧
      (ledgerAfter ops).blockingOpenCount s = K.card) ∧
    (∀ (l : FindingLedger) (finding : ReviewFinding) (loopNumber : Nat),
      (∀ k, (∃ outcome, (l.record finding loopNumber).1 = .ok (k, outcome)) ↔
        FindingId.of finding = .ok k) ∧
      ∀ err, (l.record finding loopNumber).1 = .error err →
        (l.record finding loopNumber).2 = l) ∧
    (∀ (l : FindingLedger) (head : String) (err : FindingError),
      (l.noteHead head).1 = .error err → (l.noteHead head).2 = l) := by
  refine ⟨fun k => ⟨?_, tracks_ledgerAfter ops k⟩, fun s => ?_, fun l finding loopNumber => ?_, ?_⟩
  · rw [countP_id]
    simp only [(tracks_ledgerAfter ops k).untracked]
  · exact ⟨_, mem_blocking ops s, OrdMap.countP_eq_card _ _⟩
  · exact ⟨l.record_accepts_iff finding loopNumber, l.record_rejected finding loopNumber⟩
  · exact noteHead_rejected

end Delivery

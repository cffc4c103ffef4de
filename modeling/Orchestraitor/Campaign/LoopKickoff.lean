import Orchestraitor.Campaign.LoopFrames
import Orchestraitor.Campaign.LoopWalk

/-!
# No lost wake-ups

The kick-off gate compares with sets that every pass overwrites and consumes a one-shot flag.  What
keeps it from sleeping over a ready task (`Woken`): as long as no worker is in flight and no release
is waiting to be seen, every task of the previous ready set already has a row of the invocation, and
is excluded.
-/

namespace Campaign
open Base CallState List

def Note.Attempts : Note → Prop
  | .pass ready excluded ended => (∃ id ∈ ready, id ∉ excluded) →
      ∃ id ∈ ready, id ∉ excluded ∧ ended = .attempted id
  | _ => True

def Note.attempted? : Note → Option String
  | .pass _ _ (.attempted id) => some id
  | _ => none

def attemptedIds (notes : List Note) : List String := notes.filterMap (·.attempted?)

theorem attemptedIds_passes (notes : List Note) :
    attemptedIds (notes.filter (·.isPass)) = attemptedIds notes := by
  unfold attemptedIds
  rw [filterMap_filter]
  refine filterMap_congr fun m _ => ?_
  cases m <;> rfl

/-- what keeps the gate from sleeping over a task; `keys` are the rows that the run found in the store -/
structure Woken (r : LoopRunner) (keys : List (String × String)) (w : World) : Prop where
  slots : ∀ slot ∈ w.1.slots, (r.invocationId, slot.taskId) ∈ w.2.store.keys
  hand : ∀ run ∈ w.1.hand, (r.invocationId, run.2) ∈ w.2.store.keys
  awake : w.1.slots ≠ [] ∨ w.1.hand ≠ [] ∨ 0 < w.1.pending ∨ w.1.released = true ∨
    ∀ id ∈ w.1.previousReady, (r.invocationId, id) ∈ w.2.store.keys
  passes : ∀ m ∈ w.1.passes, m.Attempts
  rows : w.2.store.keys = keys ++ (attemptedIds w.1.passes).map (r.invocationId, ·)

namespace Woken
variable {r : LoopRunner} {keys : List (String × String)} {law : Seen → (q : Query) → Answer q → Prop}
  {w w' : World}

theorem of_keys {l : Ledger} {k k' : Seen} (h : Woken r keys (l, k)) (hk : k'.store.keys = k.store.keys) :
    Woken r keys (l, k') := by
  obtain ⟨hslots, hhand, hawake, hpasses, hrows⟩ := h
  simp only [← hk] at hslots hhand hawake hrows
  exact ⟨hslots, hhand, hawake, hpasses, hrows⟩

theorem stale {l : Ledger} {k : Seen} (h : Woken r keys (l, k)) (look : Look) {ended : PassEnd}
    (hended : ∀ id, ended ≠ .attempted id) (hfresh : ∀ id, id ∉ look.freshIds r l k) :
    Woken r keys (look.passed r l k ended, k) where
  slots := h.slots
  hand := h.hand
  awake := .inr (.inr (.inr (.inr fun id hid => absurd hid (hfresh id))))
  passes := by
    intro m hm
    obtain hm | hm := mem_append.mp hm
    · exact h.passes m hm
    · obtain rfl := mem_singleton.mp hm
      rintro ⟨id, hready, hnot⟩
      exact absurd (Look.mem_freshIds.mpr ⟨hready, hnot⟩) (hfresh id)
  rows := by
    refine h.rows.trans ?_
    cases ended with
    | attempted id => exact absurd rfl (hended id)
    | skipped | noOp => simp [Look.passed, attemptedIds, Note.attempted?]

theorem not_fresh_of_skip (hnew : r.config.kickoff.newEligibleWork = true)
    (hslot : r.config.kickoff.slotReleased = true) {l : Ledger} {k : Seen} (h : Woken r keys (l, k))
    (look : Look) {observation : KickoffObservation} (hslots : l.slots = []) (hpending : l.pending = 0)
    (hhand : l.hand = []) (hready : observation.readyIds = look.freshIds r l k)
    (hprevious : observation.previousReadyIds = l.previousReady)
    (hreleased : observation.slotReleased = l.released)
    (hskip : (evaluate r.config.kickoff observation).kickOff = false) (id : String) :
    id ∉ look.freshIds r l k := by
  intro hid
  obtain ⟨hnone, hstale⟩ := stale_of_not_kickOff hnew hslot hskip
  rw [hready, hprevious] at hstale
  have hrow : (r.invocationId, id) ∈ k.store.keys := by
    obtain h' | h' | h' | h' | h' := h.awake
    · exact absurd hslots h'
    · exact absurd hhand h'
    · exact absurd hpending (Nat.ne_of_gt h')
    · exact absurd (hreleased.trans h') (by simp [hnone])
    · exact h' id (hstale id hid)
  exact (Look.mem_freshIds.mp hid).2 (mem_exclusions hrow _ _)

theorem step (hnew : r.config.kickoff.newEligibleWork = true)
    (hslot : r.config.kickoff.slotReleased = true) (hstep : Step r law w w') (h : Woken r keys w) :
    Woken r keys w' := by
  cases hstep with
  | read | odd => exact h.of_keys rfl
  | beat => exact h.of_keys (LoopRunStore.exec_keys (fun _ h => by cases h) _)
  | mark hkeys =>
    refine ⟨fun slot hs => ?_, h.hand, ?_, h.passes, h.rows⟩
    · obtain ⟨slot', hs', hkey⟩ := mem_map.mp (hkeys ▸ mem_map_of_mem hs)
      have htask : slot'.taskId = slot.taskId := congrArg (·.2.1) hkey
      exact htask ▸ h.slots slot' hs'
    · refine h.awake.imp_left fun hne hnil => hne ?_
      exact map_eq_nil_iff.mp (hkeys ▸ map_eq_nil_iff.mpr hnil)
  | @take l k before after slot hs =>
    refine ⟨fun slot' hs' => h.slots slot' ?_, ?_, .inr (.inl (cons_ne_nil _ _)), h.passes, h.rows⟩
    · rw [hs]
      obtain hs' | hs' := mem_append.mp hs'
      · exact mem_append_left _ hs'
      · exact mem_append_right _ (mem_cons_of_mem _ hs')
    · intro run hrun
      obtain rfl | hrun := mem_cons.mp hrun
      · exact h.slots slot (hs ▸ mem_append_right _ mem_cons_self)
      · exact h.hand run hrun
  | settle hhand =>
    refine of_keys ⟨h.slots, fun run hr => ?_, .inr (.inr (.inl (Nat.succ_pos _))), h.passes, h.rows⟩
      (LoopRunStore.settled_keys ..)
    exact h.hand run (hhand ▸ mem_cons_of_mem _ hr)
  | count => exact ⟨h.slots, h.hand, .inr (.inr (.inr (.inl rfl))), h.passes, h.rows⟩
  | skip look hslots hpending hhand hready hprevious hreleased hskip =>
    exact h.stale look nofun
      (h.not_fresh_of_skip hnew hslot look hslots hpending hhand hready hprevious hreleased hskip)
  | idle look hfresh =>
    refine h.stale look nofun fun id hid => ?_
    simp [Look.freshIds, hfresh] at hid
  | @insert l k look item decisionId hitem hnow hcap hhand hfits =>
    obtain ⟨hready, hnot⟩ := Look.mem_fresh.mp hitem
    have hkeys : (k.after (.insertRun (r.request item decisionId look.now))).store.keys =
        k.store.keys ++ [(r.invocationId, item.taskId)] := by
      show ((k.store.exec (.insertRun (r.request item decisionId look.now))).2).keys = _
      rw [LoopRunStore.exec_insertRun hfits]
      exact map_append
    refine ⟨fun slot hs => ?_, fun run hr => ?_, .inr (.inl (cons_ne_nil _ _)), fun m hm => ?_, ?_⟩
    · rw [hkeys]
      exact mem_append_left _ (h.slots slot hs)
    · obtain rfl := mem_singleton.mp hr
      rw [hkeys]
      exact mem_append_right _ mem_cons_self
    · obtain hm | hm := mem_append.mp hm
      · exact h.passes m hm
      · obtain rfl := mem_singleton.mp hm
        exact fun _ => ⟨item.taskId, mem_map_of_mem hready, hnot, rfl⟩
    · rw [hkeys, h.rows]
      simp [Look.passed, attemptedIds, Note.attempted?]
  | @launch l k slot hand hhand =>
    refine ⟨fun slot' hs => ?_, fun run hr => ?_, .inl (by simp), h.passes, h.rows⟩
    · obtain hs | hs := mem_append.mp hs
      · exact h.slots slot' hs
      · obtain rfl := mem_singleton.mp hs
        exact h.hand slot'.row (hhand ▸ mem_cons_self)
    · exact h.hand run (hhand ▸ mem_cons_of_mem _ hr)
  | @refuse l k run hand cls now detail hhand hnow hrun =>
    have hrow := h.hand run (hhand ▸ mem_cons_self)
    refine of_keys ⟨h.slots, fun run' hr => ?_, ?_, h.passes, h.rows⟩ (LoopRunStore.settled_keys ..)
    · exact h.hand run' (hhand ▸ mem_cons_of_mem _ hr)
    · refine .inr (.inr (.inr (.inr fun id hid => ?_)))
      rw [mem_singleton.mp hid]
      exact hrow
  | sweep hhand =>
    refine of_keys ⟨h.slots, fun run hr => ?_, .inr (.inr (.inr (.inl rfl))), h.passes, h.rows⟩
      (LoopRunStore.exec_keys (fun _ h => by cases h) _)
    exact h.hand run (hhand ▸ mem_cons_of_mem _ hr)

end Woken

/-! ## every polled snapshot is accounted for -/

def polls : Calls.Monitor Answer (List (List String)) :=
  .watch fun k q => match q with
    | .poll .. => fun a => match a.reply with
      | .snapshot snapshot => k ++ [snapshot.ready.map (·.taskId)]
      | _ => k
    | _ => fun _ => k

section polled
variable {r : LoopRunner} {α : Type} {x : RunM α} {s : LoopState} {k v : List (List String)}

def Open (s : LoopState) (k : List (List String)) : Prop := ∃ l, l.length ≤ 1 ∧ k = s.polled ++ l

theorem Open.of_eq (h : s.polled = k) : Open s k := ⟨[], Nat.zero_le 1, by rw [h, append_nil]⟩

/-- what the list of polled queues has come to -/
def Accounted (result : Except Fatal LoopRunner.LoopSummary) (s : LoopState)
    (k : List (List String)) : Prop :=
  match result with
  | .ok _ => s.polled = k
  | .error _ => Open s k

end polled

/-! ## the result -/

def Query.isStart : Query → Bool
  | .start .. => true
  | _ => false

namespace LoopRunner

def reached (res : LoopState ⊕ (Except Fatal LoopSummary × LoopState)) : LoopState :=
  res.elim id Prod.snd

end LoopRunner

theorem Ended.past {r : LoopRunner} {law : Seen → (q : Query) → Answer q → Prop} {w0 : World}
    {result : Except Fatal LoopRunner.LoopSummary} {s : LoopState} {k : Seen}
    (h : Ended r law w0 result s k) : Past r law w0 s := by
  match result, h with
  | .ok _, ⟨hat, _⟩ => exact hat.near.past
  | .error .panicked, .inl h => exact h.2
  | .error .panicked, .inr h => exact h.near.past
  | .error (.error _), .inl h => exact h.2
  | .error (.error _), .inr h => exact h.near.past

section attempts
variable {r : LoopRunner} {law : Seen → (q : Query) → Answer q → Prop} {w0 : World}
  {keys : List (String × String)} {s : LoopState} {k : Seen}
  (hnew : r.config.kickoff.newEligibleWork = true) (hslot : r.config.kickoff.slotReleased = true)
include hnew hslot

theorem Past.attempts (h : Past r law w0 s) (hw : Woken r keys w0) : ∀ m ∈ s.notes, m.Attempts := by
  intro m hm
  obtain ⟨l, k, hr, hpasses⟩ := h
  have hwoken : Woken r keys (l, k) := hr.invariant (fun _ _ => Woken.step hnew hslot) hw
  cases m with
  | pass =>
    exact hwoken.passes _ (hpasses.subset (mem_filter.mpr ⟨hm, rfl⟩))
  | stopped | signal | drain => trivial

theorem rows_of_reach {l : Ledger} (h : Reach r law w0 (l, k)) (hl : l.passes = s.notes.filter (·.isPass))
    (hw : Woken r keys w0) : k.store.keys = keys ++ (attemptedIds s.notes).map (r.invocationId, ·) := by
  have hwoken : Woken r keys (l, k) := h.invariant (fun _ _ => Woken.step hnew hslot) hw
  rw [← attemptedIds_passes, ← hl]
  exact hwoken.rows

theorem Swept.rows {slots : List Slot} (h : Swept r law w0 s slots k) (hw : Woken r keys w0) :
    k.failed = true ∨ k.store.keys = keys ++ (attemptedIds s.notes).map (r.invocationId, ·) := by
  obtain ⟨hfailed, -⟩ | ⟨l, hl, -, hpasses, -⟩ := h
  · exact .inl hfailed
  · exact .inr (rows_of_reach hnew hslot hl hpasses hw)

theorem Ended.rows {result : Except Fatal LoopRunner.LoopSummary} (h : Ended r law w0 result s k)
    (hw : Woken r keys w0) :
    k.failed = true ∨ k.store.keys = keys ++ (attemptedIds s.notes).map (r.invocationId, ·) := by
  match result, h with
  | .ok _, ⟨hat, _⟩ => exact .inr (rows_of_reach hnew hslot hat rfl hw)
  | .error .panicked, h => exact Swept.rows hnew hslot h hw
  | .error (.error _), h => exact Swept.rows hnew hslot h hw

end attempts

end Campaign

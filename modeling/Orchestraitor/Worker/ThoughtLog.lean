import Orchestraitor.Base.Chain
import Orchestraitor.Worker.Tools

/-!
# The thoughts of an executor

Every `think` call leaves a reasoning record.  The counters of the `ThoughtChain` are those of the
accepted records, so what `validate` checks of them is a law of the records alone: `Admits`.  The ceiling
of 256 is one of the numbers and of the moments at which a revision is accepted; the thoughts of a
sequence may be more.
-/

namespace Worker
open Base List

/-! ## the law of the thoughts -/

/-- a thought 1 after a closing thought opens the next sequence, every other thought goes on with the
sequence of the one before it -/
def FollowsThought (last : Option ReasoningRecord) (r : ReasoningRecord) : Prop :=
  match last with
  | none => r.sequenceId = 1
  | some p => r.sequenceId = if r.isRevision = false ∧ r.thoughtNumber = 1 ∧
      p.nextThoughtNeeded = false then p.sequenceId + 1 else p.sequenceId

/-- what is accepted after the thoughts `past`: within the budget of the run, an advance goes beyond the
numbers of its sequence, and a revision comes while its sequence has fewer than 256 thoughts and names a
thought within it -/
structure Admits (past : List ReasoningRecord) (r : ReasoningRecord) : Prop where
  budget : past.length < maxThoughtsPerRun
  sequence : FollowsThought past.getLast? r
  number : 1 ≤ r.thoughtNumber ∧ r.thoughtNumber ≤ maxThoughtsPerSequence
  advances : r.isRevision = false → ∀ p ∈ past, p.sequenceId = r.sequenceId →
    p.thoughtNumber < r.thoughtNumber
  revises : r.isRevision = true →
    past.countP (·.sequenceId = r.sequenceId) < maxThoughtsPerSequence ∧
      ∃ target, r.revisesThought = some target ∧ 1 ≤ target ∧
        ∃ p ∈ past, p.sequenceId = r.sequenceId ∧ r.thoughtNumber ≤ p.thoughtNumber ∧
          target ≤ p.thoughtNumber

/-- the counters are those of the log -/
structure Tracks (chain : ThoughtChain) (log : List ReasoningRecord) : Prop where
  run : chain.runCount = log.length
  sequence : chain.sequenceCount = log.countP (·.sequenceId = chain.sequenceId)
  last : log.getLast?.elim (chain.sequenceId = 1 ∧ chain.sequenceClosed = false) fun r =>
    chain.sequenceId = r.sequenceId ∧ chain.sequenceClosed = !r.nextThoughtNeeded
  few : chain.sequenceId ≤ log.length + 1
  newest : ∀ r ∈ log, r.sequenceId ≤ chain.sequenceId
  highest : ∀ r ∈ log, r.sequenceId = chain.sequenceId → r.thoughtNumber ≤ chain.highestNumber
  ceiling : chain.highestNumber ≤ maxThoughtsPerSequence
  reached : chain.highestNumber = 0 ∨
    ∃ r ∈ log, r.sequenceId = chain.sequenceId ∧ r.thoughtNumber = chain.highestNumber

namespace ThoughtChain
variable {chain : ThoughtChain} {number total : Nat} {isRevision : Bool} {target : Option Nat}

theorem validate_ok (h : chain.validate number total isRevision target = .ok ()) :
    chain.runCount < maxThoughtsPerRun ∧ 1 ≤ number ∧
      ((isRevision = true ∧ chain.sequenceCount < maxThoughtsPerSequence ∧
          number ≤ chain.highestNumber ∧
          ∃ t, target = some t ∧ 1 ≤ t ∧ t ≤ chain.highestNumber) ∨
        (isRevision = false ∧ number = 1 ∧ chain.sequenceClosed = true) ∨
        (isRevision = false ∧ ¬ (number = 1 ∧ chain.sequenceClosed = true) ∧
          chain.highestNumber < number ∧ number ≤ maxThoughtsPerSequence)) := by
  unfold validate at h
  cases isRevision with
  | true =>
    simp only [if_true] at h
    cases target with
    | none => split_ifs at h
    | some t =>
      dsimp only at h
      split_ifs at h with hrun hroom hrange
      exact ⟨by omega, by omega, .inl ⟨rfl, by omega, by omega, t, rfl, by omega, by omega⟩⟩
  | false =>
    simp only [Bool.false_eq_true, if_false] at h
    split_ifs at h with hrun htotal hopen
    · exact ⟨by omega, by omega, .inr (.inl ⟨rfl, hopen⟩)⟩
    · exact ⟨by omega, by omega, .inr (.inr ⟨rfl, hopen, by omega, by omega⟩)⟩

theorem accept_eq (hid : chain.sequenceId < u32Max) (hsequence : chain.sequenceCount < u32Max)
    (hrun : chain.runCount < u32Max) (next : Bool) : chain.accept number next isRevision =
      if isRevision = false ∧ number = 1 ∧ chain.sequenceClosed = true then
        ⟨1, 1, chain.runCount + 1, chain.sequenceId + 1, !next⟩
      else ⟨max chain.highestNumber number, chain.sequenceCount + 1, chain.runCount + 1,
        chain.sequenceId, !next⟩ := by
  have hsum : ∀ a < u32Max, satAdd32 a 1 = a + 1 := fun a ha => satAdd32_eq ha
  unfold accept
  by_cases h : isRevision = false ∧ number = 1 ∧ chain.sequenceClosed = true
  · obtain ⟨rfl, rfl, hclosed⟩ := h
    simp [hclosed, hsum _ hid, hsum _ hrun, hsum 0 (by decide)]
  · rw [if_neg h, if_neg (by simpa [and_assoc] using h)]
    simp only [hsum _ hsequence, hsum _ hrun]

end ThoughtChain

variable {chain : ThoughtChain} {log : List ReasoningRecord} {r : ReasoningRecord}

theorem Tracks.new : Tracks .new [] :=
  ⟨rfl, rfl, ⟨rfl, rfl⟩, by decide, nofun, nofun, by decide, .inl rfl⟩

theorem Tracks.opened (h : Tracks chain log) (hnumber : r.thoughtNumber = 1)
    (hid : r.sequenceId = chain.sequenceId + 1) :
    Tracks ⟨1, 1, chain.runCount + 1, chain.sequenceId + 1, !r.nextThoughtNeeded⟩ (log ++ [r]) := by
  have hnew : ∀ p ∈ log, p.sequenceId ≠ chain.sequenceId + 1 := by
    intro p hp
    have := h.newest p hp
    omega
  have hfresh : log.countP (·.sequenceId = chain.sequenceId + 1) = 0 :=
    countP_eq_zero.mpr fun p hp => by simpa using hnew p hp
  exact ⟨by simp [h.run], by simp [hfresh, hid], by simp [hid], by simpa using h.few,
    forall_mem_append.mpr ⟨fun p hp => (h.newest p hp).trans (Nat.le_succ _),
      forall_mem_singleton.mpr hid.le⟩,
    forall_mem_append.mpr ⟨fun p hp hpid => absurd hpid (hnew p hp),
      forall_mem_singleton.mpr fun _ => hnumber.le⟩, Nat.le_add_left 1 255,
    .inr ⟨r, by simp, hid, hnumber⟩⟩

theorem Tracks.continued (h : Tracks chain log) (hid : r.sequenceId = chain.sequenceId)
    (hnumber : r.thoughtNumber ≤ maxThoughtsPerSequence) :
    Tracks ⟨max chain.highestNumber r.thoughtNumber, chain.sequenceCount + 1, chain.runCount + 1,
      chain.sequenceId, !r.nextThoughtNeeded⟩ (log ++ [r]) := by
  refine ⟨by simp [h.run], by simp [h.sequence, hid], by simp [hid], h.few.trans (by simp),
    forall_mem_append.mpr ⟨h.newest, forall_mem_singleton.mpr hid.le⟩,
    forall_mem_append.mpr ⟨fun p hp hpid => (h.highest p hp hpid).trans (le_max_left _ _),
      forall_mem_singleton.mpr fun _ => le_max_right _ _⟩, max_le h.ceiling hnumber, ?_⟩
  rcases le_total chain.highestNumber r.thoughtNumber with hle | hle
  · exact .inr ⟨r, by simp, hid, (max_eq_right hle).symm⟩
  · rw [max_eq_left hle]
    exact h.reached.imp_right fun ⟨p, hp, hpid⟩ => ⟨p, mem_append_left _ hp, hpid⟩

theorem Tracks.follows (h : Tracks chain log) (hid : r.sequenceId =
      if r.isRevision = false ∧ r.thoughtNumber = 1 ∧ chain.sequenceClosed = true then
        chain.sequenceId + 1 else chain.sequenceId) : FollowsThought log.getLast? r := by
  have hlast := h.last
  cases hlog : log.getLast? with
  | none =>
    rw [hlog] at hlast
    obtain ⟨hfirst, hopen⟩ := hlast
    show r.sequenceId = 1
    simp [hid, hfirst, hopen]
  | some p =>
    rw [hlog] at hlast
    obtain ⟨hsame, hclosed⟩ := hlast
    show r.sequenceId = _
    simp [hid, hsame, hclosed]

/-- **The chain counts the thoughts**: one that is valid for the counters is admitted by the log. -/
theorem Tracks.accept (h : Tracks chain log) {total : Nat} {target : Option Nat}
    (hvalid : chain.validate r.thoughtNumber total r.isRevision target = .ok ())
    (hrevises : r.isRevision = true → r.revisesThought = target)
    (hid : r.sequenceId =
      (chain.accept r.thoughtNumber r.nextThoughtNeeded r.isRevision).sequenceId) :
    Tracks (chain.accept r.thoughtNumber r.nextThoughtNeeded r.isRevision) (log ++ [r]) ∧
      Admits log r := by
  obtain ⟨hrun, hpos, hcases⟩ := ThoughtChain.validate_ok hvalid
  have hfew := h.few
  have hceiling := h.ceiling
  have hcount : chain.sequenceCount ≤ log.length := h.sequence ▸ countP_le_length
  have hbudget : log.length < maxThoughtsPerRun := h.run ▸ hrun
  have hmax : maxThoughtsPerRun + 1 < u32Max := by decide
  rw [ThoughtChain.accept_eq (by omega) (by omega) (by rw [h.run]; omega)] at hid ⊢
  have hfollows := h.follows (hid.trans (apply_ite ThoughtChain.sequenceId _ _ _))
  split_ifs at hid ⊢ with hopens
  · obtain ⟨hrev, hone, _⟩ := hopens
    refine ⟨h.opened hone hid, hbudget, hfollows, ⟨hpos, by rw [hone]; decide⟩, ?_, ?_⟩
    · intro _ p hp hpid
      have := h.newest p hp
      rw [hpid, hid] at this
      exact absurd this (Nat.not_succ_le_self _)
    · intro hrev'
      rw [hrev] at hrev'
      cases hrev'
  · have hsame : r.sequenceId = chain.sequenceId := hid
    obtain ⟨hrev, hroom, hbelow, revised, htarget, hfirst, hwithin⟩ | ⟨hrev, hopen⟩ |
      ⟨hrev, _, habove, hle⟩ := hcases
    · have hle := hbelow.trans hceiling
      refine ⟨h.continued hsame hle, hbudget, hfollows, ⟨hpos, hle⟩, ?_, ?_⟩
      · intro hrev'
        rw [hrev] at hrev'
        cases hrev'
      · intro _
        obtain hzero | ⟨p, hp, hpid, hnumber⟩ := h.reached
        · omega
        · rw [hsame, ← h.sequence]
          exact ⟨hroom, revised, (hrevises hrev).trans htarget, hfirst, p, hp, hpid, hnumber ▸ hbelow,
            hnumber ▸ hwithin⟩
    · exact absurd ⟨hrev, hopen⟩ hopens
    · refine ⟨h.continued hsame hle, hbudget, hfollows, ⟨hpos, hle⟩, ?_, ?_⟩
      · intro _ p hp hpid
        exact (h.highest p hp (hpid.trans hsame)).trans_lt habove
      · intro hrev'
        rw [hrev] at hrev'
        cases hrev'

/-! ## the executor -/

def acceptedThoughts (records : List ReasoningRecord) : List ReasoningRecord :=
  records.filter (·.accepted)

/-- the records of the executor are in order, and its counters are theirs -/
structure Executor.Booked (payloads : Bool) (ex : Executor) : Prop where
  policy : ex.policy.recordPayloads = payloads
  tracks : Tracks ex.thoughts (acceptedThoughts ex.reasoningRecords)
  law : EachSplit Admits (acceptedThoughts ex.reasoningRecords)
  texts : ∀ r ∈ ex.reasoningRecords, r.thoughtText.isSome = true →
    r.accepted = true ∧ payloads = true

namespace Executor
variable {payloads : Bool} {ex : Executor}

theorem Booked.thinkRefusal (h : ex.Booked payloads) (t : Thought) (reason : String) :
    (ex.thinkRefusal t reason).2.Booked payloads := by
  have hrecords : acceptedThoughts (ex.reasoningRecords ++ [ex.record t (some reason)]) =
      acceptedThoughts ex.reasoningRecords := by
    simp [acceptedThoughts, record]
  refine ⟨h.policy, ?_, ?_, ?_⟩
  · show Tracks ex.thoughts (acceptedThoughts (ex.reasoningRecords ++ [ex.record t (some reason)]))
    rw [hrecords]
    exact h.tracks
  · show EachSplit Admits (acceptedThoughts (ex.reasoningRecords ++ [ex.record t (some reason)]))
    rw [hrecords]
    exact h.law
  · exact forall_mem_append.mpr ⟨h.texts, forall_mem_singleton.mpr fun hsome => by cases hsome⟩

theorem Booked.think (h : ex.Booked payloads) (secretShaped : String → Bool) (t : Thought) :
    (ex.think secretShaped t).2.Booked payloads := by
  unfold Executor.think
  split
  · exact h.thinkRefusal ..
  split
  · exact h.thinkRefusal ..
  split
  · exact h.thinkRefusal ..
  split
  · dsimp only
    split <;> exact h.thinkRefusal ..
  next hvalid =>
    split
    · exact h.thinkRefusal ..
    dsimp only
    set chain := ex.thoughts.accept t.thoughtNumber t.nextThoughtNeeded t.isRevision with hchain
    set r : ReasoningRecord := { ({ ex with thoughts := chain } : Executor).record t none with
      thoughtText := if ex.policy.recordPayloads then some t.thought else none } with hr
    have hlog : acceptedThoughts (ex.reasoningRecords ++ [r]) =
        acceptedThoughts ex.reasoningRecords ++ [r] := by
      simp [acceptedThoughts, hr, record]
    obtain ⟨htracks, hadmits⟩ := h.tracks.accept (r := r) hvalid (fun hrev => if_pos hrev) rfl
    refine ⟨h.policy, ?_, ?_, ?_⟩
    · show Tracks chain (acceptedThoughts (ex.reasoningRecords ++ [r]))
      rw [hlog]
      exact htracks
    · show EachSplit Admits (acceptedThoughts (ex.reasoningRecords ++ [r]))
      rw [hlog]
      exact h.law.concat hadmits
    · refine forall_mem_append.mpr ⟨h.texts, forall_mem_singleton.mpr fun hsome => ⟨rfl, ?_⟩⟩
      rw [← h.policy]
      simpa [hr] using hsome

end Executor

end Worker

import Orchestraitor.Campaign.LoopSteps

/-!
# The history of one task

The rows of a task over all invocations, reduced to what the retry guardrails are about: when each
started, and whether it ended badly (`Mark`).  `Tame` is what the guardrails with an attempt budget
`m` and a back-off of `b` seconds keep of such a history; a row is only ever appended to it while the
budget lasts, and only its last row changes its mark.
-/

namespace Campaign
open Base List

def RunRowStatus.isRetryable : RunRowStatus → Bool
  | .failed | .stalled | .timedOut => true
  | _ => false

def RunRowStatus.isBad (status : RunRowStatus) : Bool := status.isRetryable || status == .stuck

/-- what became of a run, as the retry rules see it -/
inductive Verdict where
  | fine
  | retry (finished : Option Nat)
  | stuck

def Verdict.isBad : Verdict → Bool
  | .fine => false
  | _ => true

/-- a run in the history of its task -/
structure Mark where
  started : Nat
  verdict : Verdict

def RunRow.mark (row : RunRow) : Mark :=
  { started := row.startedAtSecs
    verdict := match row.status with
      | .failed | .stalled | .timedOut => .retry row.finishedAtSecs
      | .stuck => .stuck
      | _ => .fine }

theorem RunRow.mark_isBad (row : RunRow) : row.mark.verdict.isBad = row.status.isBad := by
  unfold mark
  cases row.status <;> rfl

theorem RunRow.mark_stuck (row : RunRow) : row.mark.verdict = .stuck ↔ row.status = .stuck := by
  unfold mark
  cases row.status <;> simp

theorem RunRow.mark_retry (row : RunRow) (finished : Option Nat) :
    row.mark.verdict = .retry finished ↔
      row.status.isRetryable = true ∧ row.finishedAtSecs = finished := by
  unfold mark
  cases row.status <;> simp [RunRowStatus.isRetryable]

def badCount (marks : List Mark) : Nat := marks.countP (·.verdict.isBad)

@[simp] theorem badCount_nil : badCount [] = 0 := rfl

@[simp] theorem badCount_append (marks marks' : List Mark) :
    badCount (marks ++ marks') = badCount marks + badCount marks' := countP_append ..

@[simp] theorem badCount_cons (mark : Mark) (marks : List Mark) :
    badCount (mark :: marks) = badCount marks + if mark.verdict.isBad then 1 else 0 :=
  countP_cons ..

theorem concat_eq_split {α : Type} {l before after : List α} {x y : α}
    (h : l ++ [x] = before ++ y :: after) :
    (before = l ∧ y = x ∧ after = []) ∨ ∃ after', after = after' ++ [x] ∧ l = before ++ y :: after' := by
  obtain rfl | ⟨after', z, rfl⟩ := eq_nil_or_concat after
  · obtain ⟨hl, hx⟩ := append_inj' h rfl
    exact .inl ⟨hl.symm, (cons.inj hx).1.symm, rfl⟩
  · rw [concat_eq_append, ← cons_append, ← append_assoc] at h
    obtain ⟨hl, hx⟩ := append_inj' h rfl
    obtain rfl := (cons.inj hx).1
    exact .inr ⟨after', concat_eq_append, hl⟩

/-- the history of a task by the second `wall`, with the two columns that the store keeps of it -/
structure Tame (m b wall attempts : Nat) (backoff : Option Nat) (marks : List Mark) : Prop where
  attempts_eq : badCount marks = attempts
  attempts_le : attempts ≤ m
  /-- the `m`-th bad row is stuck, and no other -/
  stuck_iff : ∀ before mark after, marks = before ++ mark :: after → mark.verdict.isBad = true →
    (mark.verdict = .stuck ↔ badCount before + 1 = m)
  stuck_last : ∀ before mark after, marks = before ++ mark :: after → mark.verdict = .stuck →
    after = []
  finished : ∀ mark ∈ marks, ∀ end_, mark.verdict = .retry end_ → ∃ f, end_ = some f ∧ f ≤ wall
  spaced : marks.Pairwise fun mark mark' =>
    ∀ f, mark.verdict = .retry (some f) → f + b ≤ mark'.started
  started : ∀ mark ∈ marks, mark.started ≤ wall
  /-- what the next row has to wait for is over, or the store knows of it -/
  waiting : ∀ mark ∈ marks, ∀ f, mark.verdict = .retry (some f) →
    f + b ≤ wall ∨ ∃ u, backoff = some u ∧ f + b ≤ u

namespace Tame
variable {m b wall wall' attempts attempts' : Nat} {backoff backoff' : Option Nat} {marks : List Mark}
  {mark mark' : Mark}

theorem nil : Tame m b wall 0 none [] :=
  ⟨rfl, Nat.zero_le m, by simp, by simp, by simp, .nil, by simp, by simp⟩

theorem later (h : Tame m b wall attempts backoff marks) (hwall : wall ≤ wall') :
    Tame m b wall' attempts backoff marks :=
  { h with
    finished := fun mark hmark end_ hend =>
      (h.finished mark hmark end_ hend).imp fun _ hf => ⟨hf.1, hf.2.trans hwall⟩
    started := fun mark hmark => (h.started mark hmark).trans hwall
    waiting := fun mark hmark f hf => (h.waiting mark hmark f hf).imp_left (·.trans hwall) }

theorem not_stuck (h : Tame m b wall attempts backoff marks) (hlt : attempts < m) (hmark : mark ∈ marks) :
    mark.verdict ≠ .stuck := by
  intro hstuck
  obtain ⟨before, after, rfl⟩ := append_of_mem hmark
  have hbad : mark.verdict.isBad = true := hstuck ▸ rfl
  have hm := (h.stuck_iff before mark after rfl hbad).mp hstuck
  have := h.attempts_eq
  simp only [badCount_append, badCount_cons, hbad, if_true] at this
  omega

theorem append (h : Tame m b wall attempts backoff marks) (hlt : attempts < m)
    (hbackoff : b ≠ 0 → ∀ u, backoff = some u → u ≤ wall) (hmark : mark = ⟨wall, .fine⟩) :
    Tame m b wall attempts backoff (marks ++ [mark]) := by
  have hover : ∀ old ∈ marks, ∀ f, old.verdict = .retry (some f) → f + b ≤ wall := by
    intro old hold f hf
    by_cases hb : b = 0
    · obtain ⟨f', hsome, hle⟩ := h.finished old hold (some f) hf
      obtain rfl := Option.some.inj hsome
      rwa [hb]
    · obtain hf | ⟨u, hu, hf⟩ := h.waiting old hold f hf
      · exact hf
      · exact hf.trans (hbackoff hb u hu)
  subst hmark
  constructor
  · simpa [Verdict.isBad] using h.attempts_eq
  · exact h.attempts_le
  · intro before mark _ hsplit hbad
    obtain ⟨rfl, rfl, rfl⟩ | ⟨after', rfl, rfl⟩ := concat_eq_split hsplit
    · cases hbad
    · exact h.stuck_iff before mark after' rfl hbad
  · intro _ _ _ hsplit hstuck
    obtain ⟨rfl, rfl, rfl⟩ | ⟨after', rfl, rfl⟩ := concat_eq_split hsplit
    · rfl
    · exact absurd hstuck (h.not_stuck hlt (by simp))
  · intro mark hmark end_ hend
    obtain hmark | hmark := mem_append.mp hmark
    · exact h.finished mark hmark end_ hend
    · rw [mem_singleton.mp hmark] at hend
      cases hend
  · refine pairwise_append.mpr ⟨h.spaced, pairwise_singleton _ _, ?_⟩
    intro old hold _ hnew f hf
    rw [mem_singleton.mp hnew]
    exact hover old hold f hf
  · intro mark hmark
    obtain hmark | hmark := mem_append.mp hmark
    · exact h.started mark hmark
    · exact (mem_singleton.mp hmark) ▸ Nat.le_refl wall
  · intro mark hmark f hf
    obtain hmark | hmark := mem_append.mp hmark
    · exact .inl (hover mark hmark f hf)
    · rw [mem_singleton.mp hmark] at hf
      cases hf

theorem relabel (h : Tame m b wall attempts backoff (marks ++ [mark]))
    (hopen : mark.verdict = .fine) (hstarted : mark'.started = mark.started)
    (hattempts : attempts' = attempts + if mark'.verdict.isBad then 1 else 0) (hlt : attempts < m)
    (hstuck : mark'.verdict.isBad = true → (mark'.verdict = .stuck ↔ attempts + 1 = m))
    (hfinished : ∀ end_, mark'.verdict = .retry end_ → ∃ f, end_ = some f ∧ f ≤ wall)
    (hbackoff : ∀ f, mark'.verdict = .retry (some f) →
      f + b ≤ wall ∨ ∃ u, backoff' = some u ∧ f + b ≤ u) :
    Tame m b wall attempts' backoff' (marks ++ [mark']) := by
  have hcount : badCount marks = attempts := by
    simpa [hopen, Verdict.isBad] using h.attempts_eq
  obtain ⟨hspaced, -, hlast⟩ := pairwise_append.mp h.spaced
  constructor
  · simp [hcount, hattempts]
  · rw [hattempts]
    split_ifs <;> omega
  · intro before old _ hsplit hbad
    obtain ⟨rfl, rfl, rfl⟩ | ⟨after', rfl, rfl⟩ := concat_eq_split hsplit
    · rw [hcount]
      exact hstuck hbad
    · exact h.stuck_iff before old (after' ++ [mark]) (by simp) hbad
  · intro _ _ _ hsplit hold
    obtain ⟨rfl, rfl, rfl⟩ | ⟨after', rfl, rfl⟩ := concat_eq_split hsplit
    · rfl
    · exact absurd hold (h.not_stuck hlt (by simp))
  · intro old hold end_ hend
    obtain hold | hold := mem_append.mp hold
    · exact h.finished old (mem_append_left _ hold) end_ hend
    · rw [mem_singleton.mp hold] at hend
      exact hfinished end_ hend
  · refine pairwise_append.mpr ⟨hspaced, pairwise_singleton _ _, ?_⟩
    intro old hold _ hnew f hf
    rw [mem_singleton.mp hnew, hstarted]
    exact hlast old hold mark mem_cons_self f hf
  · intro old hold
    obtain hold | hold := mem_append.mp hold
    · exact h.started old (mem_append_left _ hold)
    · rw [mem_singleton.mp hold, hstarted]
      exact h.started mark (by simp)
  · intro old hold f hf
    obtain hold | hold := mem_append.mp hold
    -- an earlier row was waited for when the last one started
    · refine .inl ((hlast old hold mark mem_cons_self f hf).trans ?_)
      exact h.started mark (by simp)
    · rw [mem_singleton.mp hold] at hf
      exact hbackoff f hf

end Tame

end Campaign

import Mathlib

/-!
# Histories: properties of every event and what came before it

* `EachSplit P l`       every event `e` of `l`, with the events `pre` before it, satisfies `P pre e`;
* `Since P Q l`         some event satisfied `P`, and every event after it satisfied `Q`.
-/

namespace Base
open List

variable {α : Type}

def EachSplit (P : List α → α → Prop) (l : List α) : Prop :=
  ∀ pre e post, l = pre ++ e :: post → P pre e

theorem EachSplit.nil (P : List α → α → Prop) : EachSplit P [] := by
  intro _ _ _ h
  simp at h

theorem EachSplit.concat {P : List α → α → Prop} {l : List α} {a : α} (h : EachSplit P l)
    (ha : P l a) : EachSplit P (l ++ [a]) := by
  intro pre e _ heq
  rcases append_eq_append_iff.mp heq with ⟨m, h1, h2⟩ | ⟨m, h1, h2⟩
  · -- the split is at or after the end of `l`
    cases m with
    | nil =>
      rw [append_nil] at h1
      rw [h1, ← (cons.inj h2).1]
      exact ha
    | cons =>
      have hl := congrArg length h2
      simp at hl
  · cases m with
    | nil =>
      rw [append_nil] at h1
      rw [← h1, (cons.inj h2).1]
      exact ha
    | cons b m =>
      obtain ⟨rfl, _⟩ := cons.inj h2
      exact h pre e m h1

theorem EachSplit.append {P : List α → α → Prop} {l es : List α} (h : EachSplit P l)
    (hes : EachSplit (fun pre e => P (l ++ pre) e) es) : EachSplit P (l ++ es) := by
  induction es using reverseRecOn with
  | nil => rwa [append_nil]
  | append_singleton es a ih =>
    rw [← append_assoc]
    refine (ih (fun pre e post heq => hes pre e (post ++ [a]) (by simp [heq]))).concat ?_
    exact hes es a [] rfl

def Since (P Q : List α → α → Prop) (l : List α) : Prop :=
  ∃ pre e post, l = pre ++ e :: post ∧ P pre e ∧ EachSplit (fun mid a => Q (pre ++ e :: mid) a) post

/-- the latest event is the witness, or the witness is older and the latest event is harmless -/
theorem since_concat {P Q : List α → α → Prop} {l : List α} {a : α} :
    Since P Q (l ++ [a]) ↔ P l a ∨ (Since P Q l ∧ Q l a) := by
  constructor
  · rintro ⟨pre, e, post, heq, hp, hq⟩
    induction post using reverseRecOn with
    | nil =>
      obtain ⟨rfl, h⟩ := append_inj' heq rfl
      rw [(cons.inj h).1]
      exact Or.inl hp
    | append_singleton post b _ =>
      rw [← cons_append, ← append_assoc] at heq
      obtain ⟨rfl, h⟩ := append_inj' heq rfl
      obtain ⟨rfl, _⟩ := cons.inj h
      refine Or.inr ⟨⟨pre, e, post, rfl, hp, fun mid c tail h => ?_⟩, hq post a [] rfl⟩
      exact hq mid c (tail ++ [a]) (by simp [h])
  · rintro (hp | ⟨⟨pre, e, post, rfl, hp, hq⟩, hqa⟩)
    · exact ⟨l, a, [], rfl, hp, EachSplit.nil _⟩
    · exact ⟨pre, e, post ++ [a], by simp, hp, hq.concat hqa⟩

theorem countP_append_eq {p : α → Bool} {l es : List α} (h : ∀ e ∈ es, p e = false) :
    (l ++ es).countP p = l.countP p := by
  have hz : es.countP p = 0 := countP_eq_zero.mpr (fun e he => by simp [h e he])
  rw [countP_append, hz, Nat.add_zero]

end Base

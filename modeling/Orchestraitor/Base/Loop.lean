import Mathlib.Order.Basic
import Mathlib.Tactic.Common

/-!
# Loops

`loop step n s` runs the body `step` for at most `n` rounds: `.inl` goes on, `.inr` leaves the loop.
A potential that every round lowers bounds the rounds (`loop_isSome`), and the result of a loop does
not depend on the bound (`loop_mono`).  `loop_spec` is the rule of invariants.
-/

namespace Base
variable {σ ρ : Type} (step : σ → σ ⊕ ρ)

def loop : Nat → σ → Option ρ
  | 0, _ => none
  | n + 1, s => match step s with
    | .inl s' => loop n s'
    | .inr r => some r

variable {step}

theorem loop_mono {n m : Nat} {s : σ} {r : ρ} (h : loop step n s = some r) (hnm : n ≤ m) :
    loop step m s = some r := by
  induction n generalizing s m with
  | zero => exact absurd h (by simp [loop])
  | succ n ih =>
    obtain ⟨m, rfl⟩ : ∃ k, m = k + 1 := ⟨m - 1, by omega⟩
    unfold loop at h ⊢
    cases hs : step s with
    | inl =>
      rw [hs] at h
      exact ih h (by omega)
    | inr =>
      rw [hs] at h
      exact h

theorem loop_isSome {I : σ → Prop} {μ : σ → Nat}
    (hstep : ∀ s s', I s → step s = .inl s' → I s' ∧ μ s' < μ s) {n : Nat} {s : σ} (hs : I s)
    (hn : μ s < n) : (loop step n s).isSome = true := by
  induction n generalizing s with
  | zero => omega
  | succ n ih =>
    unfold loop
    cases h : step s with
    | inl s' =>
      obtain ⟨hs', hlt⟩ := hstep s s' hs h
      exact ih hs' (by omega)
    | inr => rfl

theorem loop_spec {I : σ → Prop} {post : ρ → Prop} (hstep : ∀ s s', I s → step s = .inl s' → I s')
    (hstop : ∀ s r, I s → step s = .inr r → post r) {n : Nat} {s : σ} {r : ρ} (hs : I s)
    (h : loop step n s = some r) : post r := by
  induction n generalizing s with
  | zero => exact absurd h (by simp [loop])
  | succ n ih =>
    unfold loop at h
    cases hc : step s with
    | inl s' =>
      rw [hc] at h
      exact ih (hstep s s' hs hc) h
    | inr r' =>
      rw [hc] at h
      obtain rfl := Option.some.inj h
      exact hstop s r' hs hc

end Base

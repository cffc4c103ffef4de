import Mathlib
import Orchestraitor.Base.CallRules

/-!
# Programs with calls that take time

`Calls.timed` is a program told how long each of its calls took, `withClock` the environment that tells
it.  `recording` is a monitor that remembers the timed trace; `roundTraces` cuts the trace of a loop into its
rounds.
-/

namespace Base

abbrev Timed {Q : Type} (A : Q → Type) (q : Q) : Type := A q × Nat

namespace Calls
variable {Q : Type} {A : Q → Type} {α β ρ σ τ : Type}

def timed : Calls A α → Calls (Timed A) α
  | .ret a => .ret a
  | .call q k => .call q fun a => (k a.1).timed

theorem timed_bind (x : Calls A α) (f : α → Calls A β) :
    (x >>= f).timed = x.timed >>= fun a => (f a).timed := by
  induction x with
  | ret => rfl
  | call q k ih =>
    rw [call_bind, timed]
    congr 1
    funext a
    exact ih a.1

theorem timed_loop (step : σ → Calls A (σ ⊕ ρ)) (n : Nat) (s : σ) :
    (loop step n s).timed = loop (fun s => (step s).timed) n s := by
  induction n generalizing s with
  | zero => rfl
  | succ n ih =>
    rw [loop, timed_bind]
    congr 1
    funext r
    cases r with
    | inl s' => exact ih s'
    | inr => rfl

theorem Within.timed {P : Q → Prop} {post : α → Prop} {x : Calls A α} (h : x.Within P post) :
    x.timed.Within P post := by
  induction x with
  | ret => exact h
  | call q k ih => exact ⟨h.1, fun a => ih a.1 (h.2 a.1)⟩

section clock
variable (h : τ → (q : Q) → A q × τ) (clock : τ → Nat)

def withClock (s : τ) (q : Q) : Timed A q × τ :=
  (((h s q).1, clock (h s q).2 - clock s), (h s q).2)

theorem run_timed (x : Calls A α) (s : τ) : x.timed.run (withClock h clock) s = x.run h s := by
  induction x generalizing s with
  | ret => rfl
  | call q k ih => exact ih _ _

end clock

/-! ## timed traces -/

def timeOf (P : Q → Bool) (trace : List (Sigma (Timed A))) : Nat :=
  ((trace.filter fun e => P e.1).map fun e => e.2.2).sum

theorem timeOf_concat (P : Q → Bool) (trace : List (Sigma (Timed A))) (e : Sigma (Timed A)) :
    timeOf P (trace ++ [e]) = timeOf P trace + if P e.1 then e.2.2 else 0 := by
  unfold timeOf
  cases hP : P e.1 <;> simp [hP]

def elapsed (trace : List (Sigma (Timed A))) : Nat := timeOf (fun _ => true) trace

theorem elapsed_concat (trace : List (Sigma (Timed A))) (e : Sigma (Timed A)) :
    elapsed (trace ++ [e]) = elapsed trace + e.2.2 := timeOf_concat _ _ _

theorem timeOf_add_le {P R : Q → Bool} (h : ∀ q, P q = true → R q = false)
    (trace : List (Sigma (Timed A))) : timeOf P trace + timeOf R trace ≤ elapsed trace := by
  induction trace using List.reverseRecOn with
  | nil => exact Nat.le_refl 0
  | append_singleton _ e =>
    rw [timeOf_concat, timeOf_concat, elapsed_concat]
    cases hP : P e.1 with
    | true =>
      rw [h _ hP]
      simp only [if_true, Bool.false_eq_true, if_false]
      omega
    | false =>
      cases R e.1 <;> simp <;> omega

def recording (E : List (Sigma (Timed A)) → (q : Q) → Timed A q → Prop) :
    Monitor (Timed A) (List (Sigma (Timed A))) :=
  { permits := fun _ _ => True
    expects := E
    next := fun k q a => k ++ [⟨q, a⟩] }

theorem recording_after (E : List (Sigma (Timed A)) → (q : Q) → Timed A q → Prop)
    (k trace : List (Sigma (Timed A))) : (recording E).after k trace = k ++ trace := by
  induction trace generalizing k with
  | nil => simp
  | cons e trace ih =>
    rw [Monitor.after_cons, ih]
    show (k ++ [e]) ++ trace = k ++ e :: trace
    rw [List.append_assoc]
    rfl

/-! ## the rounds of a loop -/

section rounds
variable (h : τ → (q : Q) → A q × τ) (step : σ → Calls A (σ ⊕ ρ))

def roundTraces : Nat → σ → τ → List (List (Sigma A))
  | 0, _, _ => []
  | n + 1, s, t => (step s).trace h t :: match ((step s).run h t).1 with
    | .inl s' => roundTraces n s' ((step s).run h t).2
    | .inr _ => []

end rounds

end Calls

end Base

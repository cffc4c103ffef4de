import Mathlib.Logic.Function.Basic
import Mathlib.Data.Sigma.Basic

/-!
# Programs that call an environment

A program is the tree of the calls it can make: after each call it continues with the answer.
`Calls.eval` runs it against fixed answers, `Calls.run` against an environment with a state of its
own, and `Calls.trace` lists what was asked and answered.  `Calls.Keeps` follows a program with a
monitor; a program that keeps its monitor behaves in every environment that the monitor describes
(`Keeps.run`).
-/

namespace Base

/-- a program with calls `q : Q`, answered in `A q`, that ends with a value of `α` -/
inductive Calls {Q : Type} (A : Q → Type) (α : Type) where
  | ret (a : α)
  | call (q : Q) (k : A q → Calls A α)

namespace Calls
variable {Q : Type} {A : Q → Type} {α β γ : Type}

protected def bind : Calls A α → (α → Calls A β) → Calls A β
  | .ret a, f => f a
  | .call q k, f => .call q fun a => (k a).bind f

instance : Monad (Calls A) where
  pure := .ret
  bind := Calls.bind

def ask (q : Q) : Calls A (A q) := .call q .ret

@[simp] theorem pure_eq (a : α) : (pure a : Calls A α) = .ret a := rfl

@[simp] theorem ret_bind (a : α) (f : α → Calls A β) : (.ret a : Calls A α) >>= f = f a := rfl

@[simp] theorem call_bind (q : Q) (k : A q → Calls A α) (f : α → Calls A β) :
    .call q k >>= f = .call q fun a => k a >>= f := rfl

@[simp] theorem ask_bind (q : Q) (f : A q → Calls A β) : (ask q : Calls A (A q)) >>= f = .call q f :=
  rfl

theorem bind_ret (x : Calls A α) : x >>= .ret = x := by
  induction x with
  | ret => rfl
  | call q k ih =>
    rw [call_bind]
    congr 1
    funext a
    exact ih a

theorem bind_bind (x : Calls A α) (f : α → Calls A β) (g : β → Calls A γ) :
    x >>= f >>= g = x >>= fun a => f a >>= g := by
  induction x with
  | ret => rfl
  | call q k ih =>
    simp only [call_bind]
    congr 1
    funext a
    exact ih a

instance : LawfulMonad (Calls A) :=
  LawfulMonad.mk' (Calls A) bind_ret (fun _ _ => rfl) bind_bind

/-! ## fixed answers -/

def eval (h : (q : Q) → A q) : Calls A α → α
  | .ret a => a
  | .call q k => (k (h q)).eval h

section eval
variable (h : (q : Q) → A q)

@[simp] theorem eval_bind (x : Calls A α) (f : α → Calls A β) :
    (x >>= f).eval h = (f (x.eval h)).eval h := by
  induction x with
  | ret => rfl
  | call q k ih => exact ih (h q)

theorem eval_bindE {ε : Type} (x : ExceptT ε (Calls A) α) (f : α → ExceptT ε (Calls A) β) :
    Calls.eval h (x >>= f).run = Calls.eval h x.run >>= fun a => Calls.eval h (f a).run := by
  show Calls.eval h (x.run >>= ExceptT.bindCont f) = _
  rw [eval_bind]
  cases Calls.eval h x.run <;> rfl

theorem eval_foldlM {ε : Type} (f : β → α → ExceptT ε (Calls A) β) (l : List α) (b : β) :
    Calls.eval h (l.foldlM f b).run = l.foldlM (fun b a => Calls.eval h (f b a).run) b := by
  induction l generalizing b with
  | nil => rfl
  | cons a l ih =>
    rw [List.foldlM_cons, eval_bindE]
    congr 1
    funext b'
    exact ih b'

end eval

/-! ## an environment with a state -/

section run
variable {σ : Type} (h : σ → (q : Q) → A q × σ)

def run : Calls A α → σ → α × σ
  | .ret a, s => (a, s)
  | .call q k, s => (k (h s q).1).run (h s q).2

def trace : Calls A α → σ → List (Sigma A)
  | .ret _, _ => []
  | .call q k, s => ⟨q, (h s q).1⟩ :: (k (h s q).1).trace (h s q).2

end run

/-- at most `n` calls, whatever the answers -/
def AtMost : Nat → Calls A α → Prop
  | _, .ret _ => True
  | 0, .call _ _ => False
  | n + 1, .call _ k => ∀ a, (k a).AtMost n

theorem AtMost.zero {x : Calls A α} (h : x.AtMost 0) : ∃ a, x = .ret a := by
  cases x with
  | ret a => exact ⟨a, rfl⟩
  | call => exact h.elim

/-! ## monitors -/

/-- what an observer of the calls knows (`κ`): the calls it permits, the answers it expects, and
what it knows next -/
structure Monitor (A : Q → Type) (κ : Type) where
  permits : κ → Q → Prop
  expects : κ → (q : Q) → A q → Prop
  next : κ → (q : Q) → A q → κ

variable {κ : Type}

/-- a monitor that permits and expects everything -/
def Monitor.watch (next : κ → (q : Q) → A q → κ) : Monitor A κ :=
  { permits := fun _ _ => True, expects := fun _ _ _ => True, next }

/-- what is known after the calls of a trace -/
def Monitor.after (m : Monitor A κ) (k : κ) (trace : List (Sigma A)) : κ :=
  trace.foldl (fun k e => m.next k e.1 e.2) k

@[simp] theorem Monitor.after_nil (m : Monitor A κ) (k : κ) : m.after k [] = k := rfl

@[simp] theorem Monitor.after_cons (m : Monitor A κ) (k : κ) (e : Sigma A) (l : List (Sigma A)) :
    m.after k (e :: l) = m.after (m.next k e.1 e.2) l := rfl

theorem Monitor.after_concat (m : Monitor A κ) (k : κ) (l : List (Sigma A)) (e : Sigma A) :
    m.after k (l ++ [e]) = m.next (m.after k l) e.1 e.2 := by
  rw [after, List.foldl_append]
  rfl

/-- as long as the answers are the expected ones every call is permitted, and `post` holds of the
result and of what is known at the end -/
def Keeps (m : Monitor A κ) (post : α → κ → Prop) : Calls A α → κ → Prop
  | .ret a, k => post a k
  | .call q f, k => m.permits k q ∧ ∀ a, m.expects k q a → (f a).Keeps m post (m.next k q a)

section keeps
variable {m : Monitor A κ} {post : α → κ → Prop} {k : κ}

@[simp] theorem keeps_ret {a : α} : (.ret a : Calls A α).Keeps m post k ↔ post a k := Iff.rfl

@[simp] theorem keeps_call {q : Q} {f : A q → Calls A α} : (call q f).Keeps m post k ↔
    m.permits k q ∧ ∀ a, m.expects k q a → (f a).Keeps m post (m.next k q a) := Iff.rfl

theorem keeps_bind {x : Calls A β} {f : β → Calls A α} :
    (x >>= f).Keeps m post k ↔ x.Keeps m (fun b k' => (f b).Keeps m post k') k := by
  induction x generalizing k with
  | ret => rfl
  | call q g ih =>
    exact and_congr_right fun _ => forall_congr' fun a => imp_congr_right fun _ => ih a

theorem Keeps.mono {x : Calls A α} {post' : α → κ → Prop} (h : x.Keeps m post k)
    (hp : ∀ a k', post a k' → post' a k') : x.Keeps m post' k := by
  induction x generalizing k with
  | ret a => exact hp a k h
  | call q f ih => exact ⟨h.1, fun a ha => ih a (h.2 a ha)⟩

theorem Keeps.and {x : Calls A α} {post' : α → κ → Prop} (h : x.Keeps m post k)
    (h' : x.Keeps m post' k) : x.Keeps m (fun a k' => post a k' ∧ post' a k') k := by
  induction x generalizing k with
  | ret => exact ⟨h, h'⟩
  | call q f ih => exact ⟨h.1, fun a ha => ih a (h.2 a ha) (h'.2 a ha)⟩

theorem keeps_bindE {ε : Type} {x : ExceptT ε (Calls A) β} {f : β → ExceptT ε (Calls A) α}
    {post : Except ε α → κ → Prop} :
    Calls.Keeps m post (x >>= f).run k ↔
      Calls.Keeps m (fun r k' => match r with
        | .ok b => Calls.Keeps m post (f b).run k'
        | .error e => post (.error e) k') x.run k := by
  show Calls.Keeps m post (x.run >>= ExceptT.bindCont f) k ↔ _
  rw [keeps_bind]
  constructor
  · intro h
    apply h.mono
    intro r _ hr
    cases r <;> exact hr
  · intro h
    apply h.mono
    intro r _ hr
    cases r <;> exact hr

theorem keeps_foldlM {ε : Type} {f : β → α → ExceptT ε (Calls A) β}
    (h : ∀ b a, Calls.Keeps m (fun _ k' => k' = k) (f b a).run k) (l : List α) (b : β) :
    Calls.Keeps m (fun _ k' => k' = k) (l.foldlM f b).run k := by
  induction l generalizing b with
  | nil => rfl
  | cons a l ih =>
    rw [List.foldlM_cons, keeps_bindE]
    apply (h b a).mono
    intro r _ hk
    subst hk
    cases r with
    | error => rfl
    | ok b' => exact ih b'

/-- A program that keeps its monitor, in an environment that the monitor describes: `R` relates
what is known to the state, and every permitted call is answered as expected. -/
theorem Keeps.run {σ : Type} {h : σ → (q : Q) → A q × σ} {R : κ → σ → Prop}
    (hR : ∀ k s q, R k s → m.permits k q →
      m.expects k q (h s q).1 ∧ R (m.next k q (h s q).1) (h s q).2)
    {x : Calls A α} (hx : x.Keeps m post k) {s : σ} (hs : R k s) :
    post (x.run h s).1 (m.after k (x.trace h s)) ∧ R (m.after k (x.trace h s)) (x.run h s).2 := by
  induction x generalizing k s with
  | ret => exact ⟨hx, hs⟩
  | call q f ih =>
    obtain ⟨he, hn⟩ := hR k s q hs hx.1
    exact ih _ (hx.2 _ he) hn

theorem Keeps.watch_run {σ : Type} {h : σ → (q : Q) → A q × σ} {next : κ → (q : Q) → A q → κ}
    {x : Calls A α} (hx : x.Keeps (.watch next) post k) (s : σ) :
    post (x.run h s).1 ((Monitor.watch next).after k (x.trace h s)) :=
  (hx.run (fun _ _ _ _ _ => ⟨trivial, trivial⟩) (R := fun _ _ => True) trivial).1

end keeps

end Calls

end Base

import Orchestraitor.Base.Calls

/-!
# Rules for programs with calls

`Calls.loop step n s` and `Calls.rounds step n s` run a body that makes calls for at most `n` rounds;
a loop without a bound of its own is followed for every `n`.

* `Within`                          what a program does whatever the answers: the calls it makes and
                                    what it returns; `Within.keeps` is the frame rule for a monitor
                                    that these calls do not touch;
* `Expected`, `Permitted`           a trace all of whose answers are as a monitor expects them, all
                                    of whose calls it permits; `Keeps.run_expected` and
                                    `Keeps.permitted` need only the first of the environment.
-/

namespace Base.Calls
variable {Q : Type} {A : Q → Type} {α β ρ σ κ : Type}

/-! ## loops -/

def loop (step : σ → Calls A (σ ⊕ ρ)) : Nat → σ → Calls A (Option ρ)
  | 0, _ => .ret none
  | n + 1, s => step s >>= fun
    | .inl s' => loop step n s'
    | .inr r => .ret (some r)

def rounds (step : σ → Calls A (σ ⊕ ρ)) : Nat → σ → Calls A (σ ⊕ ρ)
  | 0, s => .ret (.inl s)
  | n + 1, s => step s >>= fun
    | .inl s' => rounds step n s'
    | .inr r => .ret (.inr r)

theorem rounds_add (step : σ → Calls A (σ ⊕ ρ)) (n m : Nat) (s : σ) :
    rounds step (n + m) s = rounds step n s >>= fun
      | .inl s' => rounds step m s'
      | .inr r => .ret (.inr r) := by
  induction n generalizing s with
  | zero => rw [Nat.zero_add]; rfl
  | succ n ih =>
    rw [Nat.succ_add, rounds, rounds, bind_bind]
    congr 1
    funext res
    cases res with
    | inl s' => exact ih s'
    | inr => rfl

section loop
variable {m : Monitor A κ} {step : σ → Calls A (σ ⊕ ρ)} {I : σ → κ → Prop} {post : ρ → κ → Prop}

variable {s : σ} {k : κ}

/-- an invariant of the rounds holds wherever the loop is cut off, and the way out establishes
`post` -/
theorem keeps_loop
    (hstep : ∀ s k, I s k → (step s).Keeps m (fun r k' => r.elim (I · k') (post · k')) k) (n : Nat)
    (hI : I s k) : (loop step n s).Keeps m (fun r k' => r.elim (∃ s', I s' k') (post · k')) k := by
  induction n generalizing s k with
  | zero => exact ⟨s, hI⟩
  | succ n ih =>
    rw [loop, keeps_bind]
    apply (hstep s k hI).mono
    intro r _ hr
    cases r with
    | inl => exact ih hr
    | inr => exact hr

theorem keeps_rounds
    (hstep : ∀ s k, I s k → (step s).Keeps m (fun r k' => r.elim (I · k') (post · k')) k) (n : Nat)
    (hI : I s k) : (rounds step n s).Keeps m (fun r k' => r.elim (I · k') (post · k')) k := by
  induction n generalizing s k with
  | zero => exact hI
  | succ n ih =>
    rw [rounds, keeps_bind]
    apply (hstep s k hI).mono
    intro r _ hr
    cases r with
    | inl => exact ih hr
    | inr => exact hr

/-- as `keeps_rounds`, for rounds each of which adds to a count -/
theorem keeps_rounds_grow {μ : κ → Nat} (hstep : ∀ s k, I s k → (step s).Keeps m (fun r k' => r.elim
      (fun s' => I s' k' ∧ μ k < μ k') (post · k')) k) (n : Nat) (hI : I s k) :
    (rounds step n s).Keeps m (fun r k' => r.elim (fun s' => I s' k' ∧ μ k + n ≤ μ k') (post · k')) k := by
  induction n generalizing s k with
  | zero => exact ⟨hI, Nat.le_refl _⟩
  | succ n ih =>
    rw [rounds, keeps_bind]
    apply (hstep s k hI).mono
    intro r k' hr
    cases r with
    | inr => exact hr
    | inl =>
      refine (ih hr.1).mono fun r k'' hr' => ?_
      cases r with
      | inr => exact hr'
      | inl => exact ⟨hr'.1, by have := hr.2; have := hr'.2; omega⟩

/-- a potential that every round lowers makes `n` rounds enough -/
theorem keeps_loop_some {μ : σ → Nat} (hstep : ∀ s k, I s k → (step s).Keeps m (fun r k' => r.elim
      (fun s' => I s' k' ∧ μ s' < μ s) (post · k')) k) {n : Nat} (hI : I s k) (hn : μ s < n) :
    (loop step n s).Keeps m (fun r k' => ∃ v, r = some v ∧ post v k') k := by
  induction n generalizing s k with
  | zero => omega
  | succ n ih =>
    rw [loop, keeps_bind]
    apply (hstep s k hI).mono
    intro r _ hr
    cases r with
    | inl => exact ih hr.1 (by have := hr.2; omega)
    | inr v => exact ⟨v, rfl, hr⟩

end loop

/-! ## programs that keep to some calls -/

/-- every call satisfies `P`, and every result `post`, whatever the answers -/
def Within (P : Q → Prop) (post : α → Prop) : Calls A α → Prop
  | .ret a => post a
  | .call q k => P q ∧ ∀ a, (k a).Within P post

section within
variable {P : Q → Prop} {post : α → Prop}

@[simp] theorem within_ret {a : α} : (.ret a : Calls A α).Within P post ↔ post a := Iff.rfl

@[simp] theorem within_call {q : Q} {k : A q → Calls A α} :
    (call q k).Within P post ↔ P q ∧ ∀ a, (k a).Within P post := Iff.rfl

theorem within_bind {x : Calls A β} {f : β → Calls A α} :
    (x >>= f).Within P post ↔ x.Within P (fun b => (f b).Within P post) := by
  induction x with
  | ret => rfl
  | call q k ih =>
    exact and_congr_right fun _ => forall_congr' ih

variable {k : κ} {x : Calls A α} {m : Monitor A κ}

theorem Within.mono {post' : α → Prop} (h : x.Within P post) (hp : ∀ a, post a → post' a) :
    x.Within P post' := by
  induction x with
  | ret a => exact hp a h
  | call q k ih => exact ⟨h.1, fun a => ih a (h.2 a)⟩

theorem Within.weaken {P' : Q → Prop} (h : x.Within P post) (hP : ∀ q, P q → P' q) :
    x.Within P' post := by
  induction x with
  | ret => exact h
  | call q k ih => exact ⟨hP q h.1, fun a => ih a (h.2 a)⟩

theorem Within.keeps_inv {J : κ → Prop} (h : x.Within P post)
    (hm : ∀ k q, J k → P q → m.permits k q ∧ ∀ a, m.expects k q a → J (m.next k q a)) (hk : J k) :
    x.Keeps m (fun a k' => post a ∧ J k') k := by
  induction x generalizing k with
  | ret => exact ⟨h, hk⟩
  | call q f ih =>
    obtain ⟨hpermits, hnext⟩ := hm k q hk h.1
    exact ⟨hpermits, fun a ha => ih a (h.2 a) (hnext a ha)⟩

theorem Within.bind_congr {x : Calls A β} {post : β → Prop} (h : x.Within P post)
    {f g : β → Calls A α} (hfg : ∀ b, post b → f b = g b) : x >>= f = x >>= g := by
  induction x with
  | ret b => exact hfg b h
  | call q k ih =>
    rw [call_bind]
    congr 1
    funext a
    exact ih a (h.2 a)

theorem Keeps.within_of_watch {next : κ → (q : Q) → A q → κ}
    (h : x.Keeps (.watch next) (fun a _ => post a) k) : x.Within (fun _ => True) post := by
  induction x generalizing k with
  | ret => exact h
  | call q f ih => exact ⟨trivial, fun a => ih a (h.2 a trivial)⟩

theorem Within.keeps (h : x.Within P post) (hm : ∀ q, P q → m.permits k q ∧ ∀ a, m.next k q a = k) :
    x.Keeps m (fun a k' => post a ∧ k' = k) k := by
  refine h.keeps_inv ?_ rfl
  rintro _ q rfl hq
  exact ⟨(hm q hq).1, fun a _ => (hm q hq).2 a⟩

theorem keeps_any (hm : ∀ k q, m.permits k q) (x : Calls A α) (k : κ) :
    x.Keeps m (fun _ _ => True) k := by
  induction x generalizing k with
  | ret => trivial
  | call q f ih => exact ⟨hm k q, fun a _ => ih a _⟩

end within

/-! ## runs -/

section run
variable {τ : Type} (h : τ → (q : Q) → A q × τ)

theorem run_bind (x : Calls A α) (f : α → Calls A β) (s : τ) :
    (x >>= f).run h s = (f (x.run h s).1).run h (x.run h s).2 := by
  induction x generalizing s with
  | ret => rfl
  | call q k ih => exact ih _ _

theorem run_bindE {ε : Type} (x : ExceptT ε (Calls A) α) (f : α → ExceptT ε (Calls A) β) (s : τ) :
    (x >>= f).run.run h s = match x.run.run h s with
      | (.ok a, s') => (f a).run.run h s'
      | (.error e, s') => (.error e, s') := by
  show (x.run >>= ExceptT.bindCont f).run h s = _
  rw [run_bind]
  obtain ⟨r, s'⟩ := x.run.run h s
  cases r <;> rfl

theorem Within.run {P : Q → Prop} {post : α → Prop} {J : τ → Prop} {x : Calls A α} (hx : x.Within P post)
    (hJ : ∀ s q, P q → J s → J (h s q).2) {s : τ} (hs : J s) : post (x.run h s).1 ∧ J (x.run h s).2 := by
  induction x generalizing s with
  | ret => exact ⟨hx, hs⟩
  | call q k ih => exact ih _ (hx.2 _) (hJ s q hx.1 hs)

theorem Within.trace {P : Q → Prop} {post : α → Prop} {x : Calls A α} (hx : x.Within P post) (s : τ) :
    (∀ e ∈ x.trace h s, P e.1) ∧ post (x.run h s).1 := by
  induction x generalizing s with
  | ret => exact ⟨nofun, hx⟩
  | call q k ih => exact ⟨List.forall_mem_cons.mpr ⟨hx.1, (ih _ (hx.2 _) _).1⟩, (ih _ (hx.2 _) _).2⟩

theorem trace_bind (x : Calls A α) (f : α → Calls A β) (s : τ) :
    (x >>= f).trace h s = x.trace h s ++ (f (x.run h s).1).trace h (x.run h s).2 := by
  induction x generalizing s with
  | ret => rfl
  | call q k ih => exact congrArg _ (ih _ _)

theorem loop_last {step : σ → Calls A (σ ⊕ ρ)} {n : Nat} {s : σ} {t : τ} {v : ρ}
    (hrun : ((loop step n s).run h t).1 = some v) :
    ∃ s' t' before, ((step s').run h t').1 = .inr v ∧
      (loop step n s).trace h t = before ++ (step s').trace h t' := by
  induction n generalizing s t with
  | zero => cases hrun
  | succ n ih =>
    rw [loop, run_bind] at hrun
    rw [loop, trace_bind]
    cases hs : ((step s).run h t).1 with
    | inl =>
      rw [hs] at hrun
      obtain ⟨s'', t'', before, hlast, htrace⟩ := ih hrun
      refine ⟨s'', t'', (step s).trace h t ++ before, hlast, ?_⟩
      rw [List.append_assoc, ← htrace]
    | inr =>
      rw [hs] at hrun
      cases hrun
      exact ⟨s, t, [], hs, by simp [trace]⟩

end run

def Monitor.Expected (m : Monitor A κ) : κ → List (Sigma A) → Prop
  | _, [] => True
  | k, e :: l => m.expects k e.1 e.2 ∧ m.Expected (m.next k e.1 e.2) l

instance Monitor.decidableExpected (m : Monitor A κ) [∀ k q a, Decidable (m.expects k q a)] :
    (k : κ) → (l : List (Sigma A)) → Decidable (m.Expected k l)
  | _, [] => inferInstanceAs (Decidable True)
  | k, e :: l =>
    have := decidableExpected m (m.next k e.1 e.2) l
    inferInstanceAs (Decidable (_ ∧ _))

variable {m : Monitor A κ} {k : κ} {l : List (Sigma A)}

/-- what a program that keeps its monitor has established, in a run with the expected answers -/
theorem Keeps.run_expected {post : α → κ → Prop} {τ : Type} {h : τ → (q : Q) → A q × τ}
    {x : Calls A α} (hx : x.Keeps m post k) {s : τ} (he : m.Expected k (x.trace h s)) :
    post (x.run h s).1 (m.after k (x.trace h s)) := by
  induction x generalizing k s with
  | ret => exact hx
  | call q f ih => exact ih _ (hx.2 _ he.1) he.2

theorem Monitor.expected_append {l' : List (Sigma A)} :
    m.Expected k (l ++ l') ↔ m.Expected k l ∧ m.Expected (m.after k l) l' := by
  induction l generalizing k with
  | nil => simp [Expected]
  | cons e l ih =>
    simp only [List.cons_append, Expected, ih]
    exact and_assoc.symm

def Monitor.Permitted (m : Monitor A κ) : κ → List (Sigma A) → Prop
  | _, [] => True
  | k, e :: l => m.permits k e.1 ∧ m.Permitted (m.next k e.1 e.2) l

theorem Keeps.permitted {post : α → κ → Prop} {τ : Type} {h : τ → (q : Q) → A q × τ} {x : Calls A α}
    (hx : x.Keeps m post k) {s : τ} (he : m.Expected k (x.trace h s)) :
    m.Permitted k (x.trace h s) := by
  induction x generalizing k s with
  | ret => trivial
  | call q f ih => exact ⟨hx.1, ih _ (hx.2 _ he.1) he.2⟩

theorem Monitor.permitted_append {l' : List (Sigma A)} :
    m.Permitted k (l ++ l') ↔ m.Permitted k l ∧ m.Permitted (m.after k l) l' := by
  induction l generalizing k with
  | nil => simp [Permitted]
  | cons e l ih =>
    simp only [List.cons_append, Permitted, ih]
    exact and_assoc.symm

/-- what every permitted call finds known, and what is known at the end, is known at every moment -/
theorem Monitor.Permitted.moment {J : κ → Prop} (hm : ∀ k q, m.permits k q → J k)
    (hl : m.Permitted k l) (hend : J (m.after k l)) {before : List (Sigma A)} (hb : before <+: l) :
    J (m.after k before) := by
  obtain ⟨after, rfl⟩ := hb
  cases after with
  | nil => rwa [List.append_nil] at hend
  | cons =>
    obtain ⟨-, hafter⟩ := permitted_append.mp hl
    exact hm _ _ hafter.1

theorem Monitor.expected_of_forall {E : Sigma A → Prop} (hm : ∀ k q a, E ⟨q, a⟩ → m.expects k q a)
    (hl : ∀ e ∈ l, E e) (k : κ) : m.Expected k l := by
  induction l generalizing k with
  | nil => trivial
  | cons e l ih =>
    refine ⟨hm k e.1 e.2 (hl e List.mem_cons_self), ?_⟩
    exact ih (fun e' he' => hl e' (List.mem_cons_of_mem e he')) _

end Base.Calls

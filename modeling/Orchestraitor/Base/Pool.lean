import Mathlib.Logic.Function.Basic
import Orchestraitor.Base.Calls

/-!
# Programs that run concurrently

A pool is any number of programs over one shared environment; a schedule names the program that
makes the next call, and each call is one step.  `Along` states a property of every step of a
schedule.  `Watched` is the invariant of a pool whose programs each keep a monitor: what a monitor
knows must survive the steps of the others (`Watched.step`).
-/

namespace Base
open Function

/-- programs that share a state, each with its calls so far -/
structure Pool (ι σ : Type) {Q : Type} (A : Q → Type) (α : Type) where
  shared : σ
  prog : ι → Calls A α
  log : ι → List (Sigma A)

namespace Pool
variable {ι σ Q α κ : Type} [DecidableEq ι] {A : Q → Type}

def start (s : σ) (prog : ι → Calls A α) : Pool ι σ A α := { shared := s, prog, log := fun _ => [] }

def step (h : σ → (q : Q) → A q × σ) (p : Pool ι σ A α) (i : ι) : Pool ι σ A α :=
  match p.prog i with
  | .ret _ => p
  | .call q k =>
    { shared := (h p.shared q).2
      prog := Function.update p.prog i (k (h p.shared q).1)
      log := Function.update p.log i (p.log i ++ [⟨q, (h p.shared q).1⟩]) }

def run (h : σ → (q : Q) → A q × σ) (p : Pool ι σ A α) (schedule : List ι) : Pool ι σ A α :=
  schedule.foldl (step h) p

/-- `i` makes the call `q` next -/
def Asks (p : Pool ι σ A α) (i : ι) (q : Q) : Prop := ∃ k, p.prog i = .call q k

def Ended (p : Pool ι σ A α) (i : ι) : Prop := ∃ a, p.prog i = .ret a

/-- a property of every step of a schedule, in the state in which the step is taken -/
def Along (h : σ → (q : Q) → A q × σ) (P : Pool ι σ A α → ι → Prop) :
    Pool ι σ A α → List ι → Prop
  | _, [] => True
  | p, i :: schedule => P p i ∧ Along h P (p.step h i) schedule

instance Along.decide (h : σ → (q : Q) → A q × σ) (P : Pool ι σ A α → ι → Prop)
    [∀ p i, Decidable (P p i)] : (p : Pool ι σ A α) → (schedule : List ι) →
    Decidable (Along h P p schedule)
  | _, [] => inferInstanceAs (Decidable True)
  | p, i :: schedule =>
    have := Along.decide h P (p.step h i) schedule
    inferInstanceAs (Decidable (P p i ∧ Along h P (p.step h i) schedule))

omit [DecidableEq ι] in
theorem Asks.not_ended {p : Pool ι σ A α} {i : ι} {q : Q} (h : p.Asks i q) : ¬ p.Ended i := by
  rintro ⟨a, ha⟩
  obtain ⟨k, hk⟩ := h
  exact absurd (hk.symm.trans ha) (by simp)

section step
variable {h : σ → (q : Q) → A q × σ} {p : Pool ι σ A α} {i : ι}

theorem step_ended (he : p.Ended i) : p.step h i = p := by
  obtain ⟨a, ha⟩ := he
  rw [step, ha]

theorem step_call {q : Q} {k : A q → Calls A α} (hk : p.prog i = .call q k) : p.step h i =
      { shared := (h p.shared q).2
        prog := update p.prog i (k (h p.shared q).1)
        log := update p.log i (p.log i ++ [⟨q, (h p.shared q).1⟩]) } := by
  rw [step, hk]

variable {I : Pool ι σ A α → Prop} {P : Pool ι σ A α → ι → Prop} {schedule : List ι}

theorem Along.of_invariant {P' : Pool ι σ A α → ι → Prop}
    (hstep : ∀ p i, I p → P p i → I (p.step h i)) (hP : ∀ p i, I p → P p i → P' p i) (hI : I p)
    (ha : Along h P p schedule) : Along h P' p schedule := by
  induction schedule generalizing p with
  | nil => trivial
  | cons i _ ih => exact ⟨hP p i hI ha.1, ih (hstep p i hI ha.1) ha.2⟩

theorem Along.of_keeps (hstep : ∀ p i, I p → I (p.step h i)) (hP : ∀ p i, I p → P p i) (hI : I p) :
    Along h P p schedule := by
  induction schedule generalizing p with
  | nil => trivial
  | cons i _ ih => exact ⟨hP p i hI, ih (hstep p i hI)⟩

theorem run_invariant (hstep : ∀ p i, I p → P p i → I (p.step h i)) (hI : I p)
    (ha : Along h P p schedule) : I (p.run h schedule) := by
  induction schedule generalizing p with
  | nil => exact hI
  | cons i _ ih => exact ih (hstep p i hI ha.1) ha.2

theorem run_keeps (hstep : ∀ p i, I p → I (p.step h i)) (hI : I p) : I (p.run h schedule) := by
  induction schedule generalizing p with
  | nil => exact hI
  | cons i _ ih => exact ih (hstep p i hI)

end step

/-! ## pools of monitored programs -/

/-- what the monitor of `i` knows -/
def known (m : ι → Calls.Monitor A κ) (k₀ : κ) (p : Pool ι σ A α) (i : ι) : κ :=
  (m i).after k₀ (p.log i)

/-- every program that has not ended keeps its monitor, and what the monitor knows is true -/
def Watched (m : ι → Calls.Monitor A κ) (k₀ : κ) (R : ι → κ → σ → Prop) (p : Pool ι σ A α) : Prop :=
  ∀ i, ¬ p.Ended i →
    (p.prog i).Keeps (m i) (fun _ _ => True) (p.known m k₀ i) ∧ R i (p.known m k₀ i) p.shared

section watched
variable {m : ι → Calls.Monitor A κ} {k₀ : κ} {R : ι → κ → σ → Prop} {p : Pool ι σ A α}
  {h : σ → (q : Q) → A q × σ} {i : ι}

omit [DecidableEq ι] in
theorem Watched.start {s : σ} {prog : ι → Calls A α}
    (hk : ∀ i, (prog i).Keeps (m i) (fun _ _ => True) k₀) (hR : ∀ i, R i k₀ s) :
    (Pool.start s prog).Watched m k₀ R :=
  fun i _ => ⟨hk i, hR i⟩

/-- a step: the call of `i` is answered as its monitor expects, and what the other monitors know
stays true -/
theorem Watched.step (hw : p.Watched m k₀ R) (hown : ∀ k s q, R i k s → (m i).permits k q →
      (m i).expects k q (h s q).1 ∧ R i ((m i).next k q (h s q).1) (h s q).2)
    (hothers : ∀ q j, p.Asks i q → j ≠ i → ¬ p.Ended j → R j (p.known m k₀ j) p.shared →
      R j (p.known m k₀ j) (h p.shared q).2) : (p.step h i).Watched m k₀ R := by
  cases hp : p.prog i with
  | ret a => rwa [step_ended ⟨a, hp⟩]
  | call q f =>
    have hasks : p.Asks i q := ⟨f, hp⟩
    rw [step_call hp]
    intro j hj
    by_cases e : j = i
    · subst e
      obtain ⟨hkeeps, hR⟩ := hw j hasks.not_ended
      rw [hp] at hkeeps
      obtain ⟨hexp, hnext⟩ := hown _ _ q hR hkeeps.1
      simp only [known, update_self, Calls.Monitor.after_concat]
      exact ⟨hkeeps.2 _ hexp, hnext⟩
    · have hj' : ¬ p.Ended j := by
        rintro ⟨a, ha⟩
        exact hj ⟨a, by simpa [update_of_ne e] using ha⟩
      obtain ⟨hkeeps, hR⟩ := hw j hj'
      simp only [known, update_of_ne e]
      exact ⟨hkeeps, hothers q j hasks e hj' hR⟩

omit [DecidableEq ι] in
theorem Watched.permits (hw : p.Watched m k₀ R) {q : Q} (hq : p.Asks i q) :
    (m i).permits (p.known m k₀ i) q ∧ R i (p.known m k₀ i) p.shared := by
  obtain ⟨f, hf⟩ := hq
  obtain ⟨hkeeps, hR⟩ := hw i (Asks.not_ended ⟨f, hf⟩)
  rw [hf] at hkeeps
  exact ⟨hkeeps.1, hR⟩

end watched

/-! ## programs that return -/

/-- every program keeps its monitor up to its result, and what the monitor knows is true -/
def Follows (m : ι → Calls.Monitor A κ) (k₀ : κ) (post : ι → α → κ → Prop) (R : ι → κ → σ → Prop)
    (p : Pool ι σ A α) : Prop :=
  ∀ i, (p.prog i).Keeps (m i) (post i) (p.known m k₀ i) ∧ R i (p.known m k₀ i) p.shared

section follows
variable {m : ι → Calls.Monitor A κ} {k₀ : κ} {post : ι → α → κ → Prop} {R : ι → κ → σ → Prop}
  {p : Pool ι σ A α} {h : σ → (q : Q) → A q × σ} {i : ι}

omit [DecidableEq ι] in
theorem Follows.start {s : σ} {prog : ι → Calls A α}
    (hk : ∀ i, (prog i).Keeps (m i) (post i) k₀) (hR : ∀ i, R i k₀ s) :
    (Pool.start s prog).Follows m k₀ post R :=
  fun i => ⟨hk i, hR i⟩

theorem Follows.step (hf : p.Follows m k₀ post R)
    (hown : ∀ q, p.Asks i q → (m i).permits (p.known m k₀ i) q →
      (m i).expects (p.known m k₀ i) q (h p.shared q).1 ∧
        R i ((m i).next (p.known m k₀ i) q (h p.shared q).1) (h p.shared q).2)
    (hothers : ∀ q, p.Asks i q → (m i).permits (p.known m k₀ i) q → ∀ j, j ≠ i →
      R j (p.known m k₀ j) (h p.shared q).2) : (p.step h i).Follows m k₀ post R := by
  cases hp : p.prog i with
  | ret a => rwa [step_ended ⟨a, hp⟩]
  | call q f =>
    have hkeeps := (hf i).1
    rw [hp] at hkeeps
    rw [step_call hp]
    intro j
    by_cases e : j = i
    · subst e
      obtain ⟨hexp, hnext⟩ := hown q ⟨f, hp⟩ hkeeps.1
      simp only [known, update_self, Calls.Monitor.after_concat]
      exact ⟨hkeeps.2 _ hexp, hnext⟩
    · simp only [known, update_of_ne e]
      exact ⟨(hf j).1, hothers q ⟨f, hp⟩ hkeeps.1 j e⟩

omit [DecidableEq ι] in
theorem Follows.returned (hf : p.Follows m k₀ post R) {a : α} (ha : p.prog i = .ret a) :
    post i a (p.known m k₀ i) ∧ R i (p.known m k₀ i) p.shared := by
  have hi := hf i
  rwa [ha] at hi

theorem ended_of_count {n : Nat} (hn : (p.prog i).AtMost n) {schedule : List ι}
    (hs : n ≤ schedule.count i) : (p.run h schedule).Ended i := by
  induction schedule generalizing n p with
  | nil =>
    obtain rfl := Nat.le_zero.mp hs
    exact Calls.AtMost.zero hn
  | cons j schedule ih =>
    show ((p.step h j).run h schedule).Ended i
    cases hp : p.prog j with
    | ret a =>
      rw [step_ended ⟨a, hp⟩]
      by_cases hj : j = i
      · subst hj
        exact ih (by rw [hp]; trivial) (Nat.zero_le _)
      · exact ih hn (by rwa [List.count_cons_of_ne hj] at hs)
    | call =>
      rw [step_call hp]
      by_cases hj : j = i
      · subst hj
        rw [hp] at hn
        cases n with
        | zero => exact hn.elim
        | succ n =>
          refine ih (n := n) ?_ ?_
          · simpa only [update_self] using hn _
          · rw [List.count_cons_self] at hs
            omega
      · refine ih (n := n) ?_ (by rwa [List.count_cons_of_ne hj] at hs)
        simpa only [update_of_ne (Ne.symm hj)] using hn

end follows

end Pool

end Base

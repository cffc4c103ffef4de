import Orchestraitor.Base.CallRules

/-!
# Programs with calls, a state and errors

`CallState A ε σ α` works on a state, makes calls and may fail; the state reached is kept also when
it fails.  `Meets m post err` is what such a program establishes while a monitor `m` follows its
calls: `post` with a value, `err` with an error.  There is one rule per construct, each an
equivalence, so that a proof runs through the text of a program.  `Stays P R` is the frame of a
program: it makes only calls in `P` and never leaves the states `R`.
-/

namespace Base

/-- a program with calls that works on a state `σ`, kept also when it fails with an `ε` -/
def CallState {Q : Type} (A : Q → Type) (ε σ α : Type) : Type := σ → Calls A (Except ε α × σ)

namespace CallState
variable {Q : Type} {A : Q → Type} {ε σ α β κ : Type}

instance : Monad (CallState A ε σ) where
  pure a := fun s => .ret (.ok a, s)
  bind x f := fun s => x s >>= fun r => match r.1 with
    | .ok a => f a r.2
    | .error e => .ret (.error e, r.2)

/-- make one call -/
def ask (q : Q) : CallState A ε σ (A q) := fun s => .call q fun a => .ret (.ok a, s)

def get : CallState A ε σ σ := fun s => .ret (.ok s, s)

def update (f : σ → σ) : CallState A ε σ Unit := fun s => .ret (.ok (), f s)

def fail (e : ε) : CallState A ε σ α := fun s => .ret (.error e, s)

def forEach : List β → (β → CallState A ε σ Unit) → CallState A ε σ Unit
  | [], _ => pure ()
  | b :: l, f => do
    f b
    forEach l f

/-! ## what a program establishes -/

def Meets (m : Calls.Monitor A κ) (post : α → σ → κ → Prop) (err : ε → σ → κ → Prop)
    (x : CallState A ε σ α) (s : σ) (k : κ) : Prop :=
  (x s).Keeps m (fun r k' => match r.1 with
    | .ok a => post a r.2 k'
    | .error e => err e r.2 k') k

section rules
variable {m : Calls.Monitor A κ} {post : α → σ → κ → Prop} {err : ε → σ → κ → Prop} {s : σ} {k : κ}

@[simp] theorem meets_pure {a : α} :
    (pure a : CallState A ε σ α).Meets m post err s k ↔ post a s k := Iff.rfl

@[simp] theorem meets_fail {e : ε} :
    (fail e : CallState A ε σ α).Meets m post err s k ↔ err e s k := Iff.rfl

@[simp] theorem meets_get {post : σ → σ → κ → Prop} :
    (get : CallState A ε σ σ).Meets m post err s k ↔ post s s k := Iff.rfl

@[simp] theorem meets_update {f : σ → σ} {post : Unit → σ → κ → Prop} :
    (update f : CallState A ε σ Unit).Meets m post err s k ↔ post () (f s) k := Iff.rfl

@[simp] theorem meets_ask {q : Q} {post : A q → σ → κ → Prop} :
    (ask q : CallState A ε σ (A q)).Meets m post err s k ↔
      m.permits k q ∧ ∀ a, m.expects k q a → post a s (m.next k q a) := Iff.rfl

theorem meets_bind {x : CallState A ε σ β} {f : β → CallState A ε σ α} :
    (x >>= f).Meets m post err s k ↔
      x.Meets m (fun b s' k' => (f b).Meets m post err s' k') err s k := by
  show Calls.Keeps m _ (x s >>= _) k ↔ _
  rw [Calls.keeps_bind]
  constructor
  · intro h
    apply Calls.Keeps.mono h
    rintro ⟨r, s'⟩ k' hr
    cases r <;> exact hr
  · intro h
    apply Calls.Keeps.mono h
    rintro ⟨r, s'⟩ k' hr
    cases r <;> exact hr

theorem Meets.mono {x : CallState A ε σ α} {post' : α → σ → κ → Prop} {err' : ε → σ → κ → Prop}
    (h : x.Meets m post err s k) (hpost : ∀ a s' k', post a s' k' → post' a s' k')
    (herr : ∀ e s' k', err e s' k' → err' e s' k') : x.Meets m post' err' s k := by
  apply Calls.Keeps.mono h
  rintro ⟨r, s'⟩ k' hr
  cases r with
  | ok a => exact hpost a s' k' hr
  | error e => exact herr e s' k' hr

theorem Meets.and {x : CallState A ε σ α} {post' : α → σ → κ → Prop} {err' : ε → σ → κ → Prop}
    (h : x.Meets m post err s k) (h' : x.Meets m post' err' s k) :
    x.Meets m (fun a s' k' => post a s' k' ∧ post' a s' k')
      (fun e s' k' => err e s' k' ∧ err' e s' k') s k := by
  refine (Calls.Keeps.and h h').mono ?_
  rintro ⟨r, s'⟩ k' hr
  cases r <;> exact hr

theorem meets_forEach {f : β → CallState A ε σ Unit} {I : List β → σ → κ → Prop} {l : List β}
    (hstep : ∀ b l' s k, I (b :: l') s k → (f b).Meets m (fun _ => I l') err s k) (hI : I l s k) :
    (forEach l f).Meets m (fun _ => I []) err s k := by
  induction l generalizing s k with
  | nil => exact hI
  | cons b l ih =>
    rw [forEach, meets_bind]
    exact (hstep b l s k hI).mono (fun _ _ _ h => ih h) (fun _ _ _ h => h)

end rules

/-! ## frames -/

def Stays (P : Q → Prop) (R : σ → Prop) (x : CallState A ε σ α) : Prop :=
  ∀ s, R s → (x s).Within P fun r => R r.2

section frames
variable {P : Q → Prop} {R : σ → Prop}

theorem stays_pure (a : α) : (pure a : CallState A ε σ α).Stays P R := fun _ h => h

theorem stays_fail (e : ε) : (fail e : CallState A ε σ α).Stays P R := fun _ h => h

theorem stays_get : (get : CallState A ε σ σ).Stays P R := fun _ h => h

theorem stays_update {f : σ → σ} (h : ∀ s, R s → R (f s)) :
    (update f : CallState A ε σ Unit).Stays P R := h

theorem Stays.bind {x : CallState A ε σ β} {f : β → CallState A ε σ α} (hx : x.Stays P R)
    (hf : ∀ b, (f b).Stays P R) : (x >>= f).Stays P R := by
  intro s hs
  show Calls.Within P _ (x s >>= _)
  rw [Calls.within_bind]
  refine (hx s hs).mono ?_
  rintro ⟨r, s'⟩ hs'
  cases r with
  | ok b => exact hf b s' hs'
  | error => exact hs'

theorem stays_forEach {f : β → CallState A ε σ Unit} (hf : ∀ b, (f b).Stays P R) (l : List β) :
    (forEach l f).Stays P R := by
  induction l with
  | nil => exact stays_pure ()
  | cons b l ih => exact (hf b).bind fun _ => ih

theorem Stays.weaken {P' : Q → Prop} {x : CallState A ε σ α} (hx : x.Stays P R)
    (hP : ∀ q, P q → P' q) : x.Stays P' R := fun s hs => (hx s hs).weaken hP

theorem Stays.meets {m : Calls.Monitor A κ} {J : κ → Prop} {x : CallState A ε σ α} {s : σ} {k : κ}
    (hx : x.Stays P R)
    (hm : ∀ k q, J k → P q → m.permits k q ∧ ∀ a, m.expects k q a → J (m.next k q a))
    (hs : R s) (hk : J k) :
    x.Meets m (fun _ s' k' => R s' ∧ J k') (fun _ s' k' => R s' ∧ J k') s k := by
  refine ((hx s hs).keeps_inv hm hk).mono ?_
  rintro ⟨r, s'⟩ k' h
  cases r <;> exact h

end frames

end CallState

end Base

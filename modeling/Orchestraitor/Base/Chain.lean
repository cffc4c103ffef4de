import Orchestraitor.Base.History
import Orchestraitor.Base.Prim

/-!
# Chains: lists in which every element follows the one before it

* `Chained follows l`        every element of `l` follows from the elements before it, of which
  the check sees the last only.
-/

namespace Base

section
variable {ρ κ : Type} {follows : Option ρ → ρ → Prop}

def Chained (follows : Option ρ → ρ → Prop) (l : List ρ) : Prop :=
  EachSplit (fun pre x => follows pre.getLast? x) l

theorem chained_nil : Chained follows [] := EachSplit.nil _

theorem chained_concat {l : List ρ} {x : ρ} :
    Chained follows (l ++ [x]) ↔ Chained follows l ∧ follows l.getLast? x := by
  constructor
  · intro h
    refine ⟨fun pre e post heq => ?_, h l x [] rfl⟩
    exact h pre e (post ++ [x]) (by rw [heq]; simp)
  · rintro ⟨h, hx⟩
    exact EachSplit.concat h hx

theorem Chained.exists_follows {l : List ρ} (h : Chained follows l) {x : ρ} (hx : x ∈ l) :
    ∃ p, follows p x := by
  obtain ⟨pre, post, rfl⟩ := List.append_of_mem hx
  exact ⟨_, h pre x post rfl⟩

/-- **A chain is determined by the key of its last element**, when distinct elements have
distinct keys and an element follows one key only. -/
theorem Chained.eq_of_last {key : ρ → κ}
    (hinj : ∀ p q x y, follows p x → follows q y → key x = key y → x = y)
    (hprev : ∀ p q x, follows p x → follows q x → p.map key = q.map key)
    {l l' : List ρ} (h : Chained follows l) (h' : Chained follows l')
    (hlast : l.getLast?.map key = l'.getLast?.map key) : l = l' := by
  induction l using List.reverseRecOn generalizing l' with
  | nil =>
    cases l' using List.reverseRecOn with
    | nil => rfl
    | append_singleton => simp at hlast
  | append_singleton l x ih =>
    cases l' using List.reverseRecOn with
    | nil => simp at hlast
    | append_singleton _ y =>
      obtain ⟨hl, hx⟩ := chained_concat.mp h
      obtain ⟨hl', hy⟩ := chained_concat.mp h'
      have hkey : key x = key y := by simpa using hlast
      obtain rfl := hinj _ _ _ _ hx hy hkey
      -- the shared last element follows the same key in both chains
      rw [ih hl hl' (hprev _ _ _ hx hy)]

end

section
variable {ρ σ ε : Type} {follows : Option ρ → ρ → Prop}

/-- **A checking loop accepts exactly the chains.**  `carry p` is what the loop knows after the
element `p`. -/
theorem foldlM_chained (check : σ → ρ → Except ε σ) (carry : Option ρ → σ)
    (hstep : ∀ p x s, check (carry p) x = .ok s ↔ follows p x ∧ s = carry (some x))
    (l : List ρ) (s : σ) :
    l.foldlM check (carry none) = .ok s ↔ Chained follows l ∧ s = carry l.getLast? := by
  induction l using List.reverseRecOn generalizing s with
  | nil =>
    constructor
    · intro h
      exact ⟨chained_nil, (Except.ok.inj h).symm⟩
    · rintro ⟨_, rfl⟩
      rfl
  | append_singleton l x ih =>
    have hfold : (l ++ [x]).foldlM check (carry none) =
        l.foldlM check (carry none) >>= fun t => check t x := by
      simp only [List.foldlM_append, List.foldlM_cons, List.foldlM_nil, bind_pure]
    rw [hfold, chained_concat, List.getLast?_concat]
    constructor
    · intro h
      obtain ⟨t, hl, hx⟩ := bind_ok h
      obtain ⟨hc, rfl⟩ := (ih t).mp hl
      obtain ⟨ha, rfl⟩ := (hstep _ _ _).mp hx
      exact ⟨⟨hc, ha⟩, rfl⟩
    · rintro ⟨⟨hc, ha⟩, rfl⟩
      rw [(ih _).mpr ⟨hc, rfl⟩]
      exact (hstep l.getLast? x _).mpr ⟨ha, rfl⟩

end

/-! ## a chain beside the rows that hold it -/

section
variable {α ρ γ ε : Type} {R : α → ρ → Prop} {rows : List α} {l : List ρ}

theorem map_eq_of_forall₂ (h : List.Forall₂ R rows l) {f : α → γ} {g : ρ → γ}
    (hfg : ∀ a x, R a x → f a = g x) : rows.map f = l.map g := by
  rw [← List.forall₂_eq_eq_eq, List.forall₂_map_left_iff, List.forall₂_map_right_iff]
  exact h.imp hfg

theorem mapM_of_forall₂ (h : List.Forall₂ R rows l) {f : α → Except ε ρ}
    (hf : ∀ a x, R a x → f a = .ok x) : rows.mapM f = .ok l := by
  induction h with
  | nil => rfl
  | cons hq _ ih =>
    rw [List.mapM_cons, hf _ _ hq, ih]
    rfl

theorem exists_of_forall₂ (h : List.Forall₂ R rows l) {x : ρ} (hx : x ∈ l) : ∃ a ∈ rows, R a x := by
  induction h with
  | nil => cases hx
  | cons hq _ ih =>
    obtain rfl | hx := List.mem_cons.mp hx
    · exact ⟨_, List.mem_cons_self, hq⟩
    · obtain ⟨a, ha, hax⟩ := ih hx
      exact ⟨a, List.mem_cons_of_mem _ ha, hax⟩

end

end Base

import Mathlib.Logic.Relation
import Mathlib.Data.List.Chain
import Mathlib.Data.Set.Insert
import Mathlib.Order.Lattice

/-!
# Reachability in a relation

* `IsDistance r a b d`   the shortest path has `d` edges;
* `Relaxed.distance`     labels that are path lengths and that no edge can lower are the distances;
* `Settled r D`          `D` is closed under `r` and free of cycles; a vertex joins it when all its
                         successors have.
-/

namespace Base
open Relation

variable {α : Type} {r : α → α → Prop} {a b c : α}

/-- a path of `n` edges -/
def Steps (r : α → α → Prop) : Nat → α → α → Prop
  | 0, a, b => a = b
  | n + 1, a, b => ∃ c, Steps r n a c ∧ r c b

/-- the shortest path has `d` edges -/
def IsDistance (r : α → α → Prop) (a b : α) (d : Nat) : Prop :=
  Steps r d a b ∧ ∀ n, Steps r n a b → d ≤ n

theorem Steps.reach {n : Nat} (h : Steps r n a b) : ReflTransGen r a b := by
  induction n generalizing b with
  | zero =>
    obtain rfl : a = b := h
    exact .refl
  | succ n ih =>
    obtain ⟨c, hc, hcb⟩ := h
    exact (ih hc).tail hcb

theorem steps_of_chain {l : List α} (hc : (b :: l).IsChain (fun up down => r down up))
    (hl : (b :: l).getLast? = some a) : Steps r l.length a b := by
  induction l generalizing b with
  | nil =>
    obtain rfl : b = a := by simpa using hl
    rfl
  | cons c l ih =>
    rw [List.isChain_cons_cons] at hc
    exact ⟨c, ih hc.2 (by simpa using hl), hc.1⟩

/-- labels from the root `a` up to `cap`: each is the length of a path, and no edge from a label
below the cap leads to a missing or greater one -/
structure Relaxed (r : α → α → Prop) (a : α) (cap : Nat) (label : α → Option Nat) : Prop where
  root : label a = some 0
  path : ∀ b d, label b = some d → d ≤ cap ∧ Steps r d a b
  edge : ∀ b d c, label b = some d → d < cap → r b c → ∃ e, label c = some e ∧ e ≤ d + 1

namespace Relaxed
variable {cap : Nat} {label : α → Option Nat}

theorem le_steps (h : Relaxed r a cap label) {n : Nat} (hn : n ≤ cap) (hp : Steps r n a b) :
    ∃ e, label b = some e ∧ e ≤ n := by
  induction n generalizing b with
  | zero =>
    obtain rfl : a = b := hp
    exact ⟨0, h.root, le_refl 0⟩
  | succ n ih =>
    obtain ⟨c, hc, hcb⟩ := hp
    obtain ⟨e, he, hle⟩ := ih (by omega) hc
    obtain ⟨e', he', hle'⟩ := h.edge c e b he (by omega) hcb
    exact ⟨e', he', by omega⟩

theorem distance (h : Relaxed r a cap label) (b : α) (d : Nat) :
    label b = some d ↔ d ≤ cap ∧ IsDistance r a b d := by
  constructor
  · intro hb
    obtain ⟨hd, hp⟩ := h.path b d hb
    refine ⟨hd, hp, fun n hn => ?_⟩
    by_cases hc : n ≤ cap
    · obtain ⟨e, he, hle⟩ := h.le_steps hc hn
      rw [hb] at he
      obtain rfl := Option.some.inj he
      exact hle
    · omega
  · rintro ⟨hd, hp, hmin⟩
    obtain ⟨e, he, hle⟩ := h.le_steps hd hp
    have := hmin e (h.path b e he).2
    rw [he, show e = d by omega]

end Relaxed

/-- closed under `r` and free of cycles -/
structure Settled (r : α → α → Prop) (D : Set α) : Prop where
  closed : ∀ a ∈ D, ∀ b, r a b → b ∈ D
  acyclic : ∀ a ∈ D, ¬ TransGen r a a

namespace Settled
variable {D : Set α}

theorem empty : Settled r (∅ : Set α) := ⟨fun _ h => h.elim, fun _ h => h.elim⟩

theorem reach (h : Settled r D) (ha : a ∈ D) (hr : ReflTransGen r a b) : b ∈ D := by
  induction hr with
  | refl => exact ha
  | tail _ hbc ih => exact h.closed _ ih _ hbc

theorem no_cycle (h : Settled r D) (ha : a ∉ D) (hs : ∀ b, r a b → b ∈ D) : ¬ TransGen r a a := by
  intro hc
  obtain ⟨b, hab, hba⟩ := TransGen.head'_iff.mp hc
  exact ha (h.reach (hs b hab) hba)

theorem insert (h : Settled r D) (hs : ∀ b, r a b → b ∈ D) : Settled r (insert a D) := by
  by_cases ha : a ∈ D
  · rwa [Set.insert_eq_of_mem ha]
  · refine ⟨fun b hb c hbc => ?_, fun b hb => ?_⟩
    · rcases hb with rfl | hb
      · exact Or.inr (hs c hbc)
      · exact Or.inr (h.closed b hb c hbc)
    · rcases hb with rfl | hb
      · exact h.no_cycle ha hs
      · exact h.acyclic b hb

end Settled

end Base

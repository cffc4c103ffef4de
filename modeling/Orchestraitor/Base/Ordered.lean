import Mathlib

/-!
# Ordered maps and sets keyed by a lawful comparison

The sources keep their tables in ordered maps and sets.  Here these are `Std.ExtTreeMap` and
`Std.ExtTreeSet` over `compare`, with the lookup lemmas restated through `=` instead of
`compare a b = .eq`.

* `OrdSet.countP`, `OrdMap.countP`   the members (entries) with a property, counted along the
  iteration order.
-/

set_option linter.unusedSectionVars false

namespace Base
open Std List

abbrev OrdMap (κ ν : Type) [Ord κ] := ExtTreeMap κ ν compare

abbrev OrdSet (κ : Type) [Ord κ] := ExtTreeSet κ compare

instance pairOrd {κ ν : Type} [Ord κ] [Ord ν] : Ord (κ × ν) := lexOrd

section
variable {κ ν : Type} [Ord κ] [TransOrd κ] [LawfulEqOrd κ] [DecidableEq κ]

/-! ## lookups -/

@[simp] theorem OrdMap.get_insert (m : OrdMap κ ν) (k a : κ) (v : ν) :
    (m.insert k v)[a]? = if a = k then some v else m[a]? := by
  rw [ExtTreeMap.getElem?_insert]
  by_cases e : a = k
  · simp [e]
  · have e' : ¬ k = a := fun h => e h.symm
    simp [e, e']

theorem OrdMap.mem_iff_get (m : OrdMap κ ν) (k : κ) : k ∈ m ↔ ∃ v, m[k]? = some v := by
  rw [ExtTreeMap.mem_iff_isSome_getElem?, Option.isSome_iff_exists]

theorem OrdMap.get_none_iff (m : OrdMap κ ν) (k : κ) : m[k]? = none ↔ k ∉ m := by
  simp

@[simp] theorem OrdMap.mem_insert_iff (m : OrdMap κ ν) (k a : κ) (v : ν) :
    a ∈ m.insert k v ↔ a = k ∨ a ∈ m := by
  rw [ExtTreeMap.mem_insert, Std.compare_eq_iff_eq, eq_comm]

@[simp] theorem OrdSet.mem_insert_iff (s : OrdSet κ) (k a : κ) :
    a ∈ s.insert k ↔ a = k ∨ a ∈ s := by
  rw [ExtTreeSet.mem_insert, Std.compare_eq_iff_eq, eq_comm]

@[simp] theorem OrdSet.mem_erase_iff (s : OrdSet κ) (k a : κ) : a ∈ s.erase k ↔ a ≠ k ∧ a ∈ s := by
  rw [ExtTreeSet.mem_erase, ne_eq, Std.compare_eq_iff_eq, eq_comm]

@[simp] theorem OrdMap.get_erase (m : OrdMap κ ν) (k a : κ) :
    (m.erase k)[a]? = if a = k then none else m[a]? := by
  rw [ExtTreeMap.getElem?_erase]
  by_cases e : a = k
  · simp [e]
  · have e' : ¬ k = a := fun h => e h.symm
    simp [e, e']

variable {m : OrdMap κ ν} {k a : κ} {s : OrdSet κ}

theorem OrdMap.erase_insert_self (h : m[k]? = none) (v : ν) : (m.insert k v).erase k = m := by
  refine ExtTreeMap.ext_getElem? (fun a => ?_)
  rw [OrdMap.get_erase, OrdMap.get_insert]
  by_cases e : a = k
  · rw [if_pos e, e, h]
  · rw [if_neg e, if_neg e]

theorem OrdMap.insert_insert_self (m : OrdMap κ ν) (k : κ) (v w : ν) :
    (m.insert k v).insert k w = m.insert k w := by
  refine ExtTreeMap.ext_getElem? (fun a => ?_)
  rw [OrdMap.get_insert, OrdMap.get_insert, OrdMap.get_insert]
  split_ifs <;> rfl

theorem OrdSet.insert_erase_self (h : a ∈ s) : (s.erase a).insert a = s := by
  refine ExtTreeSet.ext_mem (fun b => ?_)
  rw [OrdSet.mem_insert_iff, OrdSet.mem_erase_iff]
  by_cases e : b = a
  · simp [e, h]
  · simp [e]

theorem OrdSet.insert_union (s t : OrdSet κ) (a : κ) : s.insert a ∪ t = (s ∪ t).insert a := by
  refine ExtTreeSet.ext_mem (fun b => ?_)
  rw [ExtTreeSet.mem_union_iff, OrdSet.mem_insert_iff, OrdSet.mem_insert_iff,
    ExtTreeSet.mem_union_iff, or_assoc]

theorem OrdSet.empty_union (s : OrdSet κ) : ∅ ∪ s = s := by
  refine ExtTreeSet.ext_mem (fun b => ?_)
  simp

def OrdMap.bump (m : OrdMap κ Nat) (k : κ) : OrdMap κ Nat := m.insert k (m[k]?.getD 0 + 1)

theorem OrdMap.getD_bump (m : OrdMap κ Nat) (k a : κ) :
    (m.bump k)[a]?.getD 0 = m[a]?.getD 0 + if a = k then 1 else 0 := by
  rw [OrdMap.bump]
  by_cases e : a = k
  · simp [e]
  · simp [e]

/-! ## iteration -/

theorem OrdSet.nodup_toList (s : OrdSet κ) : s.toList.Nodup := by
  have h := ExtTreeSet.distinct_toList (t := s)
  exact h.imp (fun hne => by simpa using hne)

theorem OrdMap.nodup_keys (m : OrdMap κ ν) : m.keys.Nodup := by
  have h := ExtTreeMap.distinct_keys (t := m)
  exact h.imp (fun hne => by simpa using hne)

theorem OrdMap.get_of_mem_toList (m : OrdMap κ ν) {v : ν} (h : (k, v) ∈ m.toList) :
    m[k]? = some v := ExtTreeMap.mem_toList_iff_getElem?_eq_some.mp h

/-! ## counting -/

theorem OrdSet.size_eq_card (s : OrdSet κ) : s.size = s.toList.toFinset.card := by
  rw [toFinset_card_of_nodup s.nodup_toList, ExtTreeSet.length_toList]

theorem OrdMap.size_eq_card (m : OrdMap κ ν) : m.size = m.keys.toFinset.card := by
  rw [toFinset_card_of_nodup m.nodup_keys, ExtTreeMap.length_keys]

theorem OrdSet.toList_subperm {t : OrdSet κ} (h : ∀ a ∈ s, a ∈ t) : s.toList.Subperm t.toList :=
  subperm_of_subset s.nodup_toList
    (fun a ha => ExtTreeSet.mem_toList.mpr (h a (ExtTreeSet.mem_toList.mp ha)))

theorem OrdSet.toList_insert_perm (h : a ∉ s) : (s.insert a).toList.Perm (a :: s.toList) := by
  refine (perm_ext_iff_of_nodup (OrdSet.nodup_toList _) ?_).mpr (fun b => ?_)
  · exact nodup_cons.mpr ⟨fun hm => h (ExtTreeSet.mem_toList.mp hm), s.nodup_toList⟩
  · rw [ExtTreeSet.mem_toList, OrdSet.mem_insert_iff, mem_cons, ExtTreeSet.mem_toList]

theorem OrdSet.size_eq_of_mem_iff (h : ∀ a, a ∈ s ↔ a ∈ m) : s.size = m.size := by
  rw [OrdSet.size_eq_card, OrdMap.size_eq_card]
  congr 1
  ext a
  rw [mem_toFinset, mem_toFinset, ExtTreeSet.mem_toList, ExtTreeMap.mem_keys, h a]

theorem OrdSet.mem_of_size_eq (h : ∀ a ∈ s, a ∈ m) (hsz : s.size = m.size) (ha : a ∈ m) : a ∈ s := by
  have hsub : s.toList.toFinset ⊆ m.keys.toFinset := by
    intro b hb
    simp only [mem_toFinset, ExtTreeSet.mem_toList, ExtTreeMap.mem_keys] at hb ⊢
    exact h b hb
  have heq := Finset.eq_of_subset_of_card_le hsub
    (by rw [← s.size_eq_card, ← m.size_eq_card, hsz])
  have hm : a ∈ m.keys.toFinset := by simpa using ha
  rw [← heq] at hm
  simpa using hm

theorem OrdSet.isEmpty_iff_forall (s : OrdSet κ) : s.isEmpty = true ↔ ∀ a, a ∉ s := by
  rw [ExtTreeSet.isEmpty_iff, ExtTreeSet.eq_empty_iff_forall_not_mem]

def OrdSet.countP (p : κ → Bool) (s : OrdSet κ) : Nat := s.toList.countP p

def OrdMap.countP (p : κ → ν → Bool) (m : OrdMap κ ν) : Nat := m.toList.countP (fun e => p e.1 e.2)

def OrdMap.keysWith (p : κ → ν → Bool) (m : OrdMap κ ν) : Finset κ :=
  ((m.toList.filter (fun e => p e.1 e.2)).map Prod.fst).toFinset

theorem OrdMap.mem_keysWith {p : κ → ν → Bool} :
    k ∈ m.keysWith p ↔ ∃ v, m[k]? = some v ∧ p k v = true := by
  rw [OrdMap.keysWith, mem_toFinset, mem_map]
  constructor
  · rintro ⟨⟨k', v⟩, hmem, rfl⟩
    obtain ⟨hmem, hp⟩ := mem_filter.mp hmem
    exact ⟨v, m.get_of_mem_toList hmem, hp⟩
  · rintro ⟨v, hv, hp⟩
    exact ⟨(k, v), mem_filter.mpr ⟨ExtTreeMap.mem_toList_iff_getElem?_eq_some.mpr hv, hp⟩, rfl⟩

theorem OrdMap.countP_eq_card (p : κ → ν → Bool) (m : OrdMap κ ν) :
    m.countP p = (m.keysWith p).card := by
  have hkeys : (m.toList.map Prod.fst).Nodup := by
    rw [ExtTreeMap.map_fst_toList_eq_keys]
    exact m.nodup_keys
  have hnodup : ((m.toList.filter (fun e => p e.1 e.2)).map Prod.fst).Nodup :=
    hkeys.sublist (filter_sublist.map _)
  rw [OrdMap.keysWith, toFinset_card_of_nodup hnodup, length_map, OrdMap.countP,
    countP_eq_length_filter]

end
end Base

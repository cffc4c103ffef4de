import Mathlib

/-!
# Layered overrides

Values merged one after another in the order of a key.  A merge either lets the later value
override (`Overrides`) or keeps what the first carrier brought (`KeepsFirst`); both laws lift
from one merge to a fold over any number of them.

* `sortByKey`, `sortDedup`       a stable sort by a key, a sort that drops repetitions;
* `eq_lastDefined_iff`           the last value in key order is the value of the topmost element.
-/

set_option linter.unusedSectionVars false

namespace Base
open List

/-! ## sorting by a key -/

section
variable {α κ : Type} [LinearOrder κ] (key : α → κ)

def sortByKey (l : List α) : List α := l.insertionSort (fun a b => key a ≤ key b)

theorem sortByKey_perm (l : List α) : (sortByKey key l).Perm l := perm_insertionSort _ l

variable {l s : List α} {a : α}

theorem mem_sortByKey : a ∈ sortByKey key l ↔ a ∈ l :=
  (sortByKey_perm key l).mem_iff

instance totalByKey : Std.Total (fun a b : α => key a ≤ key b) := ⟨fun a b => le_total (key a) (key b)⟩

instance transByKey : IsTrans α (fun a b => key a ≤ key b) := ⟨fun _ _ _ hab hbc => le_trans hab hbc⟩

theorem sortByKey_sorted (l : List α) : (sortByKey key l).Pairwise (fun a b => key a ≤ key b) :=
  pairwise_insertionSort (fun a b => key a ≤ key b) l

def sortDedup (l : List κ) : List κ := (sortByKey id l).destutter (· ≠ ·)

theorem mem_sortDedup {l : List κ} {k : κ} : k ∈ sortDedup l ↔ k ∈ l := by
  have hs : (sortByKey id l).Pairwise (fun a b : κ => a ≤ b) := sortByKey_sorted id l
  rw [sortDedup, hs.destutter_eq_dedup, mem_dedup, mem_sortByKey]

theorem length_sortDedup_le (l : List κ) : (sortDedup l).length ≤ l.length := by
  rw [← (sortByKey_perm id l).length_eq]
  exact (destutter_sublist _ _).length_le

theorem filter_sortByKey (k : κ) (l : List α) :
    (sortByKey key l).filter (fun a => key a = k) = l.filter (fun a => key a = k) := by
  have hsub : (l.filter (fun a => key a = k)).Sublist (sortByKey key l) := by
    refine sublist_insertionSort (pairwise_of_forall_mem_list ?_) filter_sublist
    intro a ha b hb
    have hka : key a = k := by simpa using (mem_filter.mp ha).2
    have hkb : key b = k := by simpa using (mem_filter.mp hb).2
    exact le_of_eq (hka.trans hkb.symm)
  have hsub' := hsub.filter (fun a => key a = k)
  simp only [filter_filter, Bool.and_self] at hsub'
  exact (hsub'.eq_of_length (((sortByKey_perm key l).filter _).length_eq).symm).symm

theorem mem_of_filter_key_eq {t : List α}
    (h : ∀ k, s.filter (fun a => key a = k) = t.filter (fun a => key a = k)) (a : α) :
    a ∈ s ↔ a ∈ t := by
  have hk := congrArg (a ∈ ·) (h (key a))
  simpa using hk

theorem head_le_of_sorted (hs : (a :: s).Pairwise (fun a b => key a ≤ key b)) :
    ∀ x ∈ a :: s, key a ≤ key x := by
  intro x hx
  rcases mem_cons.mp hx with rfl | hx
  · exact le_refl _
  · exact rel_of_pairwise_cons hs hx

theorem eq_of_filter_key_eq {t : List α} (hs : s.Pairwise (fun a b => key a ≤ key b))
    (ht : t.Pairwise (fun a b => key a ≤ key b))
    (h : ∀ k, s.filter (fun a => key a = k) = t.filter (fun a => key a = k)) : s = t := by
  induction s generalizing t with
  | nil =>
    symm
    rw [eq_nil_iff_forall_not_mem]
    exact fun a ha => not_mem_nil ((mem_of_filter_key_eq key h a).mpr ha)
  | cons a s ih =>
    cases t with
    | nil => exact absurd ((mem_of_filter_key_eq key h a).mp mem_cons_self) not_mem_nil
    | cons b t =>
      -- the heads have the least key of either list, so the same one
      have hkey : key a = key b := le_antisymm
        (head_le_of_sorted key hs b ((mem_of_filter_key_eq key h b).mpr mem_cons_self))
        (head_le_of_sorted key ht a ((mem_of_filter_key_eq key h a).mp mem_cons_self))
      have hhead := h (key a)
      rw [filter_cons_of_pos (by simp), filter_cons_of_pos (by simp [hkey])] at hhead
      obtain ⟨rfl, -⟩ := cons.inj hhead
      have htail : ∀ k, s.filter (fun x => key x = k) = t.filter (fun x => key x = k) := by
        intro k
        have hk := h k
        by_cases e : key a = k
        · rw [filter_cons_of_pos (by simpa using e),
            filter_cons_of_pos (by simpa using e)] at hk
          exact (cons.inj hk).2
        · rwa [filter_cons_of_neg (by simpa using e),
            filter_cons_of_neg (by simpa using e)] at hk
      rw [ih hs.of_cons ht.of_cons htail]

/-- lists with the same elements, in the same order, at every key with a property sort to the
same sublist -/
theorem filter_sortByKey_congr (p : κ → Bool) {l' : List α}
    (h : ∀ k, p k = true → l.filter (fun a => key a = k) = l'.filter (fun a => key a = k)) :
    (sortByKey key l).filter (fun a => p (key a)) =
      (sortByKey key l').filter (fun a => p (key a)) := by
  apply eq_of_filter_key_eq key ((sortByKey_sorted key l).filter _)
    ((sortByKey_sorted key l').filter _)
  intro k
  by_cases hk : p k = true
  · have hfil : ∀ m : List α, (m.filter (fun a => p (key a))).filter (fun a => key a = k) =
        m.filter (fun a => key a = k) := by
      intro m
      rw [filter_filter]
      apply filter_congr
      intro a _
      by_cases e : key a = k
      · simp [e, hk]
      · simp [e]
    rw [hfil, hfil, filter_sortByKey, filter_sortByKey, h k hk]
  · have hnil : ∀ m : List α, (m.filter (fun a => p (key a))).filter (fun a => key a = k) = [] := by
      intro m
      rw [filter_filter, filter_eq_nil_iff]
      intro a _ hboth
      simp only [Bool.and_eq_true, decide_eq_true_eq] at hboth
      exact hk (hboth.1 ▸ hboth.2)
    rw [hnil, hnil]

theorem find_sortByKey_cons {p : α → Bool} (ha : p a = true)
    (hlow : ∀ b ∈ l, p b = true → key a ≤ key b) : (sortByKey key (a :: l)).find? p = some a := by
  have hrest : ∀ b ∈ sortByKey key l, p b = true → key a ≤ key b :=
    fun b hb => hlow b ((mem_sortByKey key).mp hb)
  show ((sortByKey key l).orderedInsert (fun a b => key a ≤ key b) a).find? p = some a
  generalize sortByKey key l = s at hrest ⊢
  induction s with
  | nil => simp [ha]
  | cons b s ih =>
    rw [orderedInsert_cons]
    split_ifs with hle
    · rw [find?_cons_of_pos ha]
    · have hb : ¬ p b = true := fun hp => hle (hrest b mem_cons_self hp)
      rw [find?_cons_of_neg hb]
      exact ih (fun c hc => hrest c (mem_cons_of_mem _ hc))

end

/-! ## the last value a list defines -/

section
variable {α β : Type} (get : α → Option β)

def lastDefined (l : List α) : Option β := l.foldl (fun acc a => (get a).or acc) none

theorem lastDefined_concat (l : List α) (a : α) :
    lastDefined get (l ++ [a]) = (get a).or (lastDefined get l) := by
  rw [lastDefined, foldl_append]
  rfl

theorem lastDefined_eq_none (l : List α) : lastDefined get l = none ↔ ∀ a ∈ l, get a = none := by
  induction l using reverseRecOn with
  | nil => simp [lastDefined]
  | append_singleton l a ih =>
    rw [lastDefined_concat, Option.or_eq_none_iff, ih, forall_mem_append,
      forall_mem_singleton, and_comm]

theorem lastDefined_map {γ : Type} (f : γ → α) (l : List γ) :
    lastDefined get (l.map f) = lastDefined (fun a => get (f a)) l := by
  unfold lastDefined
  rw [foldl_map]

theorem map_lastDefined {γ : Type} (f : α → β → γ) (l : List α) (g : γ → β)
    (hg : ∀ a b, g (f a b) = b) :
    (lastDefined (fun a => (get a).map (f a)) l).map g = lastDefined get l := by
  induction l using reverseRecOn with
  | nil => rfl
  | append_singleton l a ih =>
    rw [lastDefined_concat, lastDefined_concat, Option.map_or, ih]
    cases get a with
    | none => rfl
    | some => simp [hg]

variable {κ : Type} [LinearOrder κ] (key : α → κ)

/-- an element of the highest key among those that define a value -/
structure Topmost (l : List α) (a : α) : Prop where
  mem : a ∈ l
  defines : (get a).isSome = true
  highest : ∀ b ∈ l, (get b).isSome = true → key b ≤ key a

/-- no two elements of one key define a value -/
def SoleByKey (l : List α) : Prop :=
  l.Pairwise (fun a b => key a = key b → ¬ ((get a).isSome = true ∧ (get b).isSome = true))

variable {get key}

variable {l l' : List α} {a : α}

theorem exists_topmost (key : α → κ) (ha : a ∈ l) (hd : (get a).isSome = true) :
    ∃ b, Topmost get key l b := by
  have hmem : a ∈ l.filter (fun a => (get a).isSome) := mem_filter.mpr ⟨ha, hd⟩
  cases hb : (l.filter (fun a => (get a).isSome)).argmax key with
  | none =>
    rw [argmax_eq_none.mp hb] at hmem
    exact absurd hmem not_mem_nil
  | some b =>
    obtain ⟨hbl, hbd⟩ := mem_filter.mp (argmax_mem hb)
    exact ⟨b, hbl, hbd, fun c hc hcd => le_of_mem_argmax (mem_filter.mpr ⟨hc, hcd⟩) hb⟩

theorem SoleByKey.perm (h : SoleByKey get key l) (hp : l.Perm l') : SoleByKey get key l' := by
  refine (hp.pairwise_iff ?_).mp h
  exact fun hab hkey hboth => hab hkey.symm hboth.symm

theorem Topmost.perm (h : Topmost get key l a) (hp : l.Perm l') : Topmost get key l' a :=
  ⟨hp.mem_iff.mp h.mem, h.defines, fun b hb => h.highest b (hp.mem_iff.mpr hb)⟩

theorem lastDefined_of_topmost (hs : l.Pairwise (fun a b => key a ≤ key b))
    (hsole : SoleByKey get key l) (ha : Topmost get key l a) : lastDefined get l = get a := by
  induction l using reverseRecOn with
  | nil => exact absurd ha.mem not_mem_nil
  | append_singleton l b ih =>
    obtain ⟨hs', -, hsb⟩ := pairwise_append.mp hs
    obtain ⟨hsole', -, hsoleb⟩ := pairwise_append.mp hsole
    rw [lastDefined_concat]
    cases hb : get b with
    | some =>
      have hdef : (get b).isSome = true := by simp [hb]
      rcases mem_append.mp ha.mem with hmem | hmem
      · have hle := hsb a hmem b mem_cons_self
        have hge := ha.highest b (by simp) hdef
        exact absurd ⟨ha.defines, hdef⟩ (hsoleb a hmem b mem_cons_self (le_antisymm hle hge))
      · rw [mem_singleton.mp hmem, hb]
        rfl
    | none =>
      have hmem : a ∈ l := by
        rcases mem_append.mp ha.mem with hmem | hmem
        · exact hmem
        · have hdef := ha.defines
          rw [mem_singleton.mp hmem, hb] at hdef
          exact absurd hdef (by simp)
      exact ih hs' hsole' ⟨hmem, ha.defines, fun c hc => ha.highest c (by simp [hc])⟩

theorem eq_lastDefined_iff (hsole : SoleByKey get key l) (x : Option β) :
    x = lastDefined get (sortByKey key l) ↔
      (∀ a, Topmost get key l a → x = get a) ∧ ((∀ a ∈ l, get a = none) → x = none) := by
  have hperm := (sortByKey_perm key l).symm
  have htop : ∀ a, Topmost get key l a → lastDefined get (sortByKey key l) = get a :=
    fun a ha => lastDefined_of_topmost (sortByKey_sorted key l) (hsole.perm hperm) (ha.perm hperm)
  constructor
  · rintro rfl
    refine ⟨htop, fun hnone => ?_⟩
    rw [lastDefined_eq_none]
    exact fun a ha => hnone a ((mem_sortByKey key).mp ha)
  · rintro ⟨hx, hnone⟩
    by_cases hex : ∃ a ∈ l, (get a).isSome = true
    · obtain ⟨a, ha, hd⟩ := hex
      obtain ⟨b, hb⟩ := exists_topmost key ha hd
      rw [hx b hb, htop b hb]
    · have hall : ∀ a ∈ l, get a = none := by
        intro a ha
        by_contra hne
        exact hex ⟨a, ha, Option.isSome_iff_ne_none.mpr hne⟩
      rw [hnone hall, eq_comm, lastDefined_eq_none]
      exact fun a ha => hall a ((mem_sortByKey key).mp ha)

theorem lastDefined_perm (hsole : SoleByKey get key l) (hp : l.Perm l') :
    lastDefined get (sortByKey key l) = lastDefined get (sortByKey key l') := by
  rw [eq_lastDefined_iff (hsole.perm hp)]
  obtain ⟨htop, hnone⟩ := (eq_lastDefined_iff hsole (lastDefined get (sortByKey key l))).mp rfl
  exact ⟨fun a ha => htop a (ha.perm hp.symm), fun h => hnone (fun a ha => h a (hp.mem_iff.mp ha))⟩

/-- an element of the least key among those with a property -/
structure Lowest (p : α → Bool) (key : α → κ) (l : List α) (a : α) : Prop where
  mem : a ∈ l
  holds : p a = true
  least : ∀ b ∈ l, p b = true → key a ≤ key b

theorem lowest_of_find {p : α → Bool} (h : (sortByKey key l).find? p = some a) : Lowest p key l a := by
  obtain ⟨hpa, before, after, hl, hbefore⟩ := find?_eq_some_iff_append.mp h
  have hmem : a ∈ sortByKey key l := hl ▸ mem_append_right _ mem_cons_self
  refine ⟨(mem_sortByKey key).mp hmem, hpa, fun b hb hpb => ?_⟩
  have hs := sortByKey_sorted key l
  rw [hl] at hs
  have hb' := (mem_sortByKey key).mpr hb
  rw [hl] at hb'
  rcases mem_append.mp hb' with hb' | hb'
  · exact absurd hpb (by simpa using hbefore b hb')
  · exact head_le_of_sorted key (pairwise_append.mp hs).2.1 b hb'

theorem highest_of_find_reverse {p : α → Bool} (h : (sortByKey key l).reverse.find? p = some a) :
    a ∈ l ∧ p a = true ∧ ∀ b ∈ l, p b = true → key b ≤ key a := by
  obtain ⟨hpa, before, after, hl, hbefore⟩ := find?_eq_some_iff_append.mp h
  have hmem : ∀ b, b ∈ l ↔ b ∈ before ++ a :: after := by
    intro b
    rw [← hl, mem_reverse, mem_sortByKey]
  refine ⟨(hmem a).mpr (mem_append_right _ mem_cons_self), hpa, fun b hb hpb => ?_⟩
  have hs : (before ++ a :: after).Pairwise (fun a b => key b ≤ key a) := by
    rw [← hl, pairwise_reverse]
    exact sortByKey_sorted key l
  rcases mem_append.mp ((hmem b).mp hb) with hb | hb
  · exact absurd hpb (by simpa using hbefore b hb)
  · rcases mem_cons.mp hb with rfl | hb
    · exact le_refl _
    · exact rel_of_pairwise_cons (pairwise_append.mp hs).2.1 hb

end

/-! ## merges -/

section
variable {γ β : Type} {merge : γ → γ → γ} {get : γ → Option β} {carries : γ → Bool}

/-- the later value wins where it is defined -/
def Overrides (merge : γ → γ → γ) (get : γ → Option β) : Prop :=
  ∀ a b, get (merge a b) = (get b).or (get a)

theorem Overrides.foldl (h : Overrides merge get) (init : γ) (l : List γ) :
    get (l.foldl merge init) = (lastDefined get l).or (get init) := by
  induction l using reverseRecOn with
  | nil => rfl
  | append_singleton l a ih =>
    rw [foldl_append, lastDefined_concat, Option.or_assoc, ← ih]
    exact h _ a

/-- the value of the first carrier stays -/
structure KeepsFirst (merge : γ → γ → γ) (carries : γ → Bool) (get : γ → Option β) : Prop where
  carries_merge : ∀ a b, carries (merge a b) = (carries a || carries b)
  get_merge : ∀ a b, get (merge a b) = if carries a = true then get a else get b
  get_of_not : ∀ a, ¬ carries a = true → get a = none

theorem KeepsFirst.carries_foldl (h : KeepsFirst merge carries get) (init : γ) (l : List γ) :
    carries (l.foldl merge init) = (carries init || l.any carries) := by
  induction l generalizing init with
  | nil => simp
  | cons a l ih => rw [foldl_cons, ih, h.carries_merge, any_cons, Bool.or_assoc]

theorem KeepsFirst.foldl (h : KeepsFirst merge carries get) (init : γ) (l : List γ) :
    get (l.foldl merge init) =
      if carries init = true then get init else (l.find? carries).bind get := by
  induction l generalizing init with
  | nil =>
    split_ifs with hc
    · rfl
    · exact h.get_of_not init hc
  | cons a l ih =>
    rw [foldl_cons, ih, h.carries_merge, h.get_merge]
    by_cases hi : carries init = true
    · simp [hi]
    · by_cases ha : carries a = true
      · simp [ha]
      · simp [hi, ha]

end
end Base

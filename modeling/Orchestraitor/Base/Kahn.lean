import Orchestraitor.Base.Ordered

/-!
# Dependency graphs: legal orders, stuck sets, Kahn elimination

A graph is a list of distinct `nodes` with `deps : κ → List κ`.

* `ReadyOrder deps done l`   `l` lists unfinished nodes, each after all its dependencies;
* `Stuck deps S`             every member of `S` waits for a member of `S`;
* `ReachesCycle deps t`      a cycle is reachable from `t`: so it is from a finite stuck set;
* `LeastOrder lt nodes deps` each listed node is the least enabled one;
* `kahn nodes deps`          the elimination loop over indegree counters and a sorted ready set.

A legal order always has an enabled node to offer (`ReadyOrder.exists_enabled`), a stuck set
never has one (`Stuck.not_enabled`).
-/

set_option linter.unusedSectionVars false

namespace Base
open Std List Relation

/-! ## legal orders and stuck sets -/

section
variable {κ : Type} (deps : κ → List κ)

def ReadyOrder : Set κ → List κ → Prop
  | _, [] => True
  | done, t :: rest => t ∉ done ∧ (∀ d ∈ deps t, d ∈ done) ∧ ReadyOrder (insert t done) rest

/-- every member waits for a member -/
def Stuck (S : Set κ) : Prop := ∀ t ∈ S, ∃ d ∈ deps t, d ∈ S

variable {deps}

variable {done : Set κ} {l : List κ} {t : κ}

theorem ReadyOrder.concat (h : ReadyOrder deps done l) (ht : t ∉ done) (htl : t ∉ l)
    (hd : ∀ d ∈ deps t, d ∈ done ∨ d ∈ l) :
    ReadyOrder deps done (l ++ [t]) := by
  induction l generalizing done with
  | nil => exact ⟨ht, fun d hdm => by simpa using hd d hdm, trivial⟩
  | cons a l ih =>
    obtain ⟨ha, hda, hl⟩ := h
    refine ⟨ha, hda, ih hl ?_ ?_ ?_⟩
    · intro hmem
      rcases hmem with e | e
      · exact htl (by simp [e])
      · exact ht e
    · exact fun hmem => htl (mem_cons_of_mem _ hmem)
    · intro d hdm
      rcases hd d hdm with e | e
      · exact .inl (.inr e)
      · rcases mem_cons.mp e with e | e
        · exact .inl (.inl e)
        · exact .inr e

theorem ReadyOrder.deps_done_or (h : ReadyOrder deps done l) (ht : t ∈ l) :
    ∀ d ∈ deps t, d ∈ done ∨ d ∈ l := by
  induction l generalizing done with
  | nil => simp at ht
  | cons a l ih =>
    obtain ⟨_, hda, hl⟩ := h
    intro d hd
    rcases mem_cons.mp ht with e | e
    · exact .inl (hda d (e ▸ hd))
    · rcases ih hl e d hd with (e' | e') | e'
      · exact .inr (by simp [e'])
      · exact .inl e'
      · exact .inr (mem_cons_of_mem _ e')

theorem ReadyOrder.deps_done (h : ReadyOrder deps ∅ l) (ht : t ∈ l) :
    ∀ d ∈ deps t, d ∈ l := fun d hd => (h.deps_done_or ht d hd).resolve_left (by simp)

theorem ReadyOrder.exists_enabled {base : Set κ} (h : ReadyOrder deps base l) (hb : base ⊆ done)
    (hl : ∃ t ∈ l, t ∉ done) :
    ∃ t ∈ l, t ∉ done ∧ ∀ d ∈ deps t, d ∈ done := by
  induction l generalizing base with
  | nil => simp at hl
  | cons a l ih =>
    obtain ⟨_, hda, hrest⟩ := h
    by_cases ha : a ∈ done
    · have hl' : ∃ t ∈ l, t ∉ done := by
        obtain ⟨t, ht, hnt⟩ := hl
        rcases mem_cons.mp ht with e | e
        · exact absurd (e ▸ ha) hnt
        · exact ⟨t, e, hnt⟩
      obtain ⟨t, ht, hres⟩ := ih hrest (Set.insert_subset ha hb) hl'
      exact ⟨t, mem_cons_of_mem _ ht, hres⟩
    · exact ⟨a, mem_cons_self, ha, fun d hd => hb (hda d hd)⟩

theorem Stuck.not_enabled {S : Set κ} (hS : Stuck deps S) (hdis : ∀ t ∈ S, t ∉ done)
    (hen : ∀ d ∈ deps t, d ∈ done) : t ∉ S := by
  intro ht
  obtain ⟨d, hd, hdS⟩ := hS t ht
  exact hdis d hdS (hen d hd)

theorem Stuck.not_listed {S : Set κ} (hS : Stuck deps S) (hdis : ∀ t ∈ S, t ∉ done)
    (h : ReadyOrder deps done l) : ∀ t ∈ l, t ∉ S := by
  induction l generalizing done with
  | nil => simp
  | cons a l ih =>
    obtain ⟨_, hda, hrest⟩ := h
    have ha : a ∉ S := hS.not_enabled hdis hda
    have hdis' : ∀ t ∈ S, t ∉ insert a done := by
      rintro t ht (rfl | hd)
      · exact ha ht
      · exact hdis t ht hd
    intro t ht
    rcases mem_cons.mp ht with rfl | ht
    · exact ha
    · exact ih hdis' hrest t ht

/-! ## cycles -/

variable (deps) in
def DependsOn (a b : κ) : Prop := b ∈ deps a

variable (deps) in
def ReachesCycle (t : κ) : Prop := ∃ c, ReflTransGen (DependsOn deps) t c ∧ TransGen (DependsOn deps) c c

theorem stuck_reachesCycle : Stuck deps {t | ReachesCycle deps t} := by
  rintro t ⟨c, htc, hcc⟩
  obtain ⟨d, hd, hdc⟩ := TransGen.head'_iff.mp (TransGen.trans_right htc hcc)
  exact ⟨d, hd, c, hdc, hcc⟩

/-- otherwise a node reached in the set, and from which nothing else is reached, waits for no member -/
theorem Stuck.reachesCycle {S : Set κ} (hS : Stuck deps S) (hfin : S.Finite) (ht : t ∈ S) :
    ReachesCycle deps t := by
  by_contra hno
  let T := {a // a ∈ S ∧ ReflTransGen (DependsOn deps) t a}
  have : Finite T := (hfin.subset fun _ h => h.1).to_subtype
  let later (a b : T) : Prop := TransGen (DependsOn deps) b.1 a.1
  have : IsTrans T later := ⟨fun _ _ _ hab hbc => hbc.trans hab⟩
  have : Std.Irrefl later := ⟨fun a haa => hno ⟨a.1, a.2.2, haa⟩⟩
  obtain ⟨m, -, hlast⟩ := (Finite.wellFounded_of_trans_of_irrefl later).has_min Set.univ
    ⟨⟨t, ht, .refl⟩, trivial⟩
  obtain ⟨d, hd, hdS⟩ := hS m.1 m.2.1
  exact hlast ⟨d, hdS, m.2.2.tail hd⟩ trivial (.single hd)

/-! ## the least legal order -/

def LeastOrder (lt : κ → κ → Prop) (nodes : List κ) (deps : κ → List κ) : Set κ → List κ → Prop
  | _, [] => True
  | done, t :: rest => (∀ a ∈ nodes, a ∉ done → (∀ d ∈ deps a, d ∈ done) → ¬ lt a t) ∧
    LeastOrder lt nodes deps (insert t done) rest

variable {lt : κ → κ → Prop} {nodes : List κ}

theorem LeastOrder.concat (h : LeastOrder lt nodes deps done l)
    (ht : ∀ a ∈ nodes, a ∉ done → a ∉ l → (∀ d ∈ deps a, d ∈ done ∨ d ∈ l) → ¬ lt a t) :
    LeastOrder lt nodes deps done (l ++ [t]) := by
  induction l generalizing done with
  | nil => exact ⟨fun a ha hdone hd => ht a ha hdone not_mem_nil fun d hm => .inl (hd d hm), trivial⟩
  | cons b l ih =>
    refine ⟨h.1, ih h.2 fun a ha hdone hal hd => ht a ha (fun hm => hdone (.inr hm)) ?_ ?_⟩
    · intro hm
      rcases mem_cons.mp hm with rfl | hm
      · exact hdone (.inl rfl)
      · exact hal hm
    · intro d hm
      rcases hd d hm with (rfl | hm) | hm
      · exact .inr mem_cons_self
      · exact .inl hm
      · exact .inr (mem_cons_of_mem _ hm)

theorem LeastOrder.not_lex {l' : List κ} (h : LeastOrder lt nodes deps done l)
    (hl' : ReadyOrder deps done l') (hin : ∀ a ∈ l', a ∈ nodes) (hlen : l.length ≤ l'.length) :
    ¬ List.Lex lt l' l := by
  induction l generalizing done l' with
  | nil => exact nofun
  | cons t l ih =>
    intro hlex
    cases hlex with
    | nil => simp at hlen
    | rel hlt => exact h.1 _ (hin _ mem_cons_self) hl'.1 hl'.2.1 hlt
    | cons hlex =>
      exact ih h.2 hl'.2.2 (fun a ha => hin a (mem_cons_of_mem _ ha)) (Nat.le_of_succ_le_succ hlen) hlex

end

/-! ## the elimination loop -/

section
variable {κ : Type} [Ord κ] [TransOrd κ] [LawfulEqOrd κ] [DecidableEq κ]

structure KahnTables (κ : Type) [Ord κ] where
  indegree : OrdMap κ Nat
  dependents : OrdMap κ (List κ)

def addEdge (id : κ) (tb : KahnTables κ) (dep : κ) : KahnTables κ where
  indegree := OrdMap.bump tb.indegree id
  dependents := tb.dependents.insert dep (tb.dependents[dep]?.getD [] ++ [id])

def addNode (deps : κ → List κ) (tb : KahnTables κ) (id : κ) : KahnTables κ :=
  (deps id).foldl (addEdge id)
    { tb with indegree := if id ∈ tb.indegree then tb.indegree else tb.indegree.insert id 0 }

variable (nodes : List κ) (deps : κ → List κ)

def kahnTables (deps : κ → List κ) : KahnTables κ :=
  nodes.foldl (addNode deps) ⟨∅, ∅⟩

/-- the counters that are left, the nodes without one, and the order so far -/
structure KahnState (κ : Type) [Ord κ] where
  indegree : OrdMap κ Nat
  ready : OrdSet κ
  order : List κ
  ordered : OrdSet κ

def release (st : OrdMap κ Nat × OrdSet κ) (child : κ) : OrdMap κ Nat × OrdSet κ :=
  match st.1[child]? with
  | none => st
  | some deg =>
    (st.1.insert child (deg - 1), if deg - 1 = 0 then st.2.insert child else st.2)

def kahnStep (dependents : OrdMap κ (List κ)) (s : KahnState κ) (id : κ) : KahnState κ :=
  let st := (dependents[id]?.getD []).foldl release (s.indegree, s.ready.erase id)
  { indegree := st.1, ready := st.2, order := s.order ++ [id], ordered := s.ordered.insert id }

/-- `while let Some(id) = ready.iter().next()`; the fuel never runs out (`kahnLoop_inv`) -/
def kahnLoop (dependents : OrdMap κ (List κ)) : Nat → KahnState κ → KahnState κ
  | 0, s => s
  | fuel + 1, s =>
    match s.ready.min? with
    | none => s
    | some id => kahnLoop dependents fuel (kahnStep dependents s id)

def kahnInit (tb : KahnTables κ) : KahnState κ where
  indegree := tb.indegree
  ready := ExtTreeSet.ofList ((tb.indegree.toList.filter (fun p => p.2 == 0)).map (·.1)) compare
  order := []
  ordered := ∅

def kahn (deps : κ → List κ) : KahnState κ :=
  let tb := kahnTables nodes deps
  kahnLoop tb.dependents nodes.length (kahnInit tb)

def releaseChecked (st : OrdMap κ Nat × OrdSet κ) (child : κ) : Option (OrdMap κ Nat × OrdSet κ) :=
  if st.1[child]? = some 0 then none else some (release st child)

def kahnLoopChecked (dependents : OrdMap κ (List κ)) : Nat → KahnState κ → Option (KahnState κ)
  | 0, s => some s
  | fuel + 1, s =>
    match s.ready.min? with
    | none => some s
    | some id =>
      ((dependents[id]?.getD []).foldlM releaseChecked (s.indegree, s.ready.erase id)).bind fun _ =>
        kahnLoopChecked dependents fuel (kahnStep dependents s id)

def kahnChecked (deps : κ → List κ) : Option (KahnState κ) :=
  let tb := kahnTables nodes deps
  kahnLoopChecked tb.dependents nodes.length (kahnInit tb)

/-! ## the two tables -/

theorem addEdges_counter {id : κ} {n : Nat} (l : List κ) (tb : KahnTables κ)
    (hid : tb.indegree[id]? = some n) (a : κ) : (l.foldl (addEdge id) tb).indegree[a]?
      = if a = id then some (n + l.length) else tb.indegree[a]? := by
  induction l generalizing tb n with
  | nil =>
    by_cases e : a = id
    · simp [e, hid]
    · simp [e]
  | cons d l ih =>
    have hbump : ∀ b, (addEdge id tb d).indegree[b]?
        = if b = id then some (n + 1) else tb.indegree[b]? := by
      intro b
      show (OrdMap.bump tb.indegree id)[b]? = _
      rw [OrdMap.bump, OrdMap.get_insert, hid]
      rfl
    rw [foldl_cons, ih _ ((hbump id).trans (if_pos rfl)), hbump, length_cons]
    by_cases e : a = id
    · simp only [e, ↓reduceIte, Option.some.injEq]
      omega
    · simp [e]

theorem addEdges_dependents (id : κ) (l : List κ) (tb : KahnTables κ) (d : κ) :
    (l.foldl (addEdge id) tb).dependents[d]?.getD []
      = tb.dependents[d]?.getD [] ++ replicate (l.count d) id := by
  induction l generalizing tb with
  | nil => simp
  | cons e l ih =>
    rw [foldl_cons, ih]
    show (tb.dependents.insert e _)[d]?.getD [] ++ _ = _
    rw [OrdMap.get_insert]
    by_cases h : d = e
    · subst h
      rw [if_pos rfl, count_cons_self, Option.getD_some, append_assoc]
      rfl
    · have h' : (e == d) = false := by simpa using fun x => h x.symm
      rw [if_neg h, count_cons, h']
      simp

theorem kahnTables_spec (nodes : List κ) (hnd : nodes.Nodup) :
    (∀ a, (kahnTables nodes deps).indegree[a]? = if a ∈ nodes then some (deps a).length else none) ∧
      ∀ d, (kahnTables nodes deps).dependents[d]?.getD []
        = nodes.flatMap (fun t => replicate ((deps t).count d) t) := by
  -- the fold adds nodes at the end, so the induction takes the last one off
  induction nodes using reverseRecOn with
  | nil => simp [kahnTables]
  | append_singleton l t ih =>
    obtain ⟨hl, ht⟩ := nodup_append.mp hnd |>.imp id (fun h => h.2)
    have htl : t ∉ l := fun h => ht t h t (by simp) rfl
    obtain ⟨ih1, ih2⟩ := ih hl
    have hfold : kahnTables (l ++ [t]) deps = addNode deps (kahnTables l deps) t := by
      simp [kahnTables]
    have hnone : (kahnTables l deps).indegree[t]? = none := by rw [ih1, if_neg htl]
    have hnot : t ∉ (kahnTables l deps).indegree := (OrdMap.get_none_iff _ _).mp hnone
    rw [hfold, addNode, if_neg hnot]
    constructor
    · intro a
      have hzero : ((kahnTables l deps).indegree.insert t 0)[t]? = some 0 :=
        (OrdMap.get_insert ..).trans (if_pos rfl)
      rw [addEdges_counter _ _ hzero, OrdMap.get_insert, ih1]
      by_cases e : a = t
      · simp [e]
      · simp [e]
    · intro d
      rw [addEdges_dependents, ih2]
      simp

/-! ## releasing the children of a finished node -/

variable {st : OrdMap κ Nat × OrdSet κ} {c : κ}

theorem release_counter {d : Nat} (hd : st.1[c]? = some d) (a : κ) :
    (release st c).1[a]? = if a = c then some (d - 1) else st.1[a]? := by
  rw [release, hd]
  exact OrdMap.get_insert _ _ _ _

theorem release_ready {d : Nat} (hd : st.1[c]? = some d) (a : κ) :
    a ∈ (release st c).2 ↔ a ∈ st.2 ∨ (a = c ∧ d - 1 = 0) := by
  rw [release, hd]
  by_cases hz : d - 1 = 0
  · simp only [hz, ↓reduceIte, OrdSet.mem_insert_iff, and_true, or_comm]
  · simp only [hz, ↓reduceIte, and_false, or_false]

/-- each counter covers the releases to come -/
def Covers (st : OrdMap κ Nat × OrdSet κ) (cs : List κ) : Prop :=
  ∀ c ∈ cs, ∃ d, st.1[c]? = some d ∧ cs.count c ≤ d

theorem Covers.release {cs : List κ} (h : Covers st (c :: cs)) : Covers (release st c) cs := by
  obtain ⟨d, hd, hle⟩ := h c mem_cons_self
  rw [count_cons_self] at hle
  intro a ha
  rw [release_counter hd]
  by_cases e : a = c
  · subst e
    exact ⟨d - 1, if_pos rfl, by omega⟩
  · obtain ⟨x, hx, hxle⟩ := h a (mem_cons_of_mem _ ha)
    rw [count_cons_of_ne (fun x => e x.symm)] at hxle
    exact ⟨x, by rw [if_neg e, hx], hxle⟩

theorem foldlM_releaseChecked {cs : List κ} (h : Covers st cs) :
    cs.foldlM releaseChecked st = some (cs.foldl release st) := by
  induction cs generalizing st with
  | nil => rfl
  | cons c _ ih =>
    obtain ⟨d, hd, hle⟩ := h c mem_cons_self
    rw [count_cons_self] at hle
    have hpos : ¬ st.1[c]? = some 0 := by
      rw [hd, Option.some.injEq]
      omega
    rw [foldlM_cons, releaseChecked, if_neg hpos]
    exact ih h.release

theorem release_spec (cs : List κ) (st : OrdMap κ Nat × OrdSet κ) (h : Covers st cs) :
    (∀ a, (cs.foldl release st).1[a]? = st.1[a]?.map (· - cs.count a)) ∧
      ∀ a, a ∈ (cs.foldl release st).2 ↔ a ∈ st.2 ∨ (a ∈ cs ∧ st.1[a]? = some (cs.count a)) := by
  induction cs generalizing st with
  | nil => simp
  | cons c cs ih =>
    obtain ⟨d, hd, hle⟩ := h c mem_cons_self
    rw [count_cons_self] at hle
    obtain ⟨h1, h2⟩ := ih (release st c) h.release
    rw [foldl_cons]
    constructor
    · intro a
      rw [h1, release_counter hd]
      by_cases e : a = c
      · subst e
        rw [if_pos rfl, hd, count_cons_self]
        simp only [Option.map_some, Option.some.injEq]
        omega
      · rw [if_neg e, count_cons_of_ne (fun x => e x.symm)]
    · intro a
      rw [h2, release_counter hd, release_ready hd]
      by_cases e : a = c
      · subst e
        rw [if_pos rfl, hd, count_cons_self]
        simp only [mem_cons, true_or, true_and, Option.some.injEq, or_assoc]
        -- the last release empties the counter now or at a later occurrence
        have hmem : a ∈ cs ↔ 0 < cs.count a := count_pos_iff.symm
        rw [hmem]
        apply or_congr Iff.rfl
        omega
      · rw [if_neg e, count_cons_of_ne (fun x => e x.symm)]
        simp only [e, false_and, or_false, mem_cons, false_or]

def waitingOn (deps : κ → List κ) (id : κ) : List κ :=
  nodes.flatMap (fun t => List.replicate ((deps t).count id) t)

theorem count_waitingOn (nodes : List κ) (hnd : nodes.Nodup) (id a : κ) :
    (waitingOn nodes deps id).count a = if a ∈ nodes then (deps a).count id else 0 := by
  unfold waitingOn
  induction nodes with
  | nil => simp
  | cons t l ih =>
    obtain ⟨htl, hl⟩ := nodup_cons.mp hnd
    rw [flatMap_cons, count_append, ih hl, count_replicate]
    by_cases e : a = t
    · subst e; simp [htl]
    · have e' : ¬ t = a := fun x => e x.symm
      simp [e, e']

theorem mem_waitingOn (nodes : List κ) (hnd : nodes.Nodup) (id a : κ) :
    a ∈ waitingOn nodes deps id ↔ a ∈ nodes ∧ 0 < (deps a).count id := by
  rw [← count_pos_iff, count_waitingOn deps nodes hnd]
  by_cases ha : a ∈ nodes
  · simp [ha]
  · simp [ha]

/-! ## the loop invariant -/

/-- every counter holds the number of open dependencies, `ready` is the set of enabled nodes -/
structure KahnInv (nodes : List κ) (deps : κ → List κ) (s : KahnState κ) : Prop where
  counts : ∀ a ∈ nodes, s.indegree[a]? = some ((deps a).countP (fun d => !s.ordered.contains d))
  ready_iff : ∀ a, a ∈ s.ready ↔ a ∈ nodes ∧ a ∉ s.ordered ∧ ∀ d ∈ deps a, d ∈ s.ordered
  mem_order : ∀ a, a ∈ s.order ↔ a ∈ s.ordered
  nodup : s.order.Nodup
  within : ∀ a ∈ s.order, a ∈ nodes
  legal : ReadyOrder deps ∅ s.order

theorem countP_open_insert (l : List κ) (s : OrdSet κ) (id : κ) (h : id ∉ s) :
    l.countP (fun d => !(s.insert id).contains d) + l.count id
      = l.countP (fun d => !s.contains d) := by
  induction l with
  | nil => rfl
  | cons a l ih =>
    rw [countP_cons, countP_cons, count_cons, ← ih]
    by_cases e : a = id
    · subst e
      have h1 : (s.insert a).contains a = true := by simp
      have h2 : s.contains a = false := by
        rw [← Bool.not_eq_true]; exact h
      simp [h2]
      omega
    · have h1 : (s.insert id).contains a = s.contains a := by
        rw [Bool.eq_iff_iff, ExtTreeSet.contains_iff_mem,
          OrdSet.mem_insert_iff]
        simp [e]
      have e' : (a == id) = false := by simpa using e
      rw [h1, e']
      simp
      omega

theorem countP_open_eq_zero (l : List κ) (s : OrdSet κ) :
    l.countP (fun d => !s.contains d) = 0 ↔ ∀ d ∈ l, d ∈ s := by
  simp [ExtTreeSet.contains_iff_mem]

theorem kahnInit_inv (hnd : nodes.Nodup) :
    KahnInv nodes deps (kahnInit (kahnTables nodes deps)) := by
  obtain ⟨h1, _⟩ := kahnTables_spec deps nodes hnd
  refine ⟨?_, ?_, ?_, nodup_nil, ?_, trivial⟩
  · intro a ha
    show (kahnTables nodes deps).indegree[a]? = _
    rw [h1, if_pos ha]
    simp [kahnInit]
  · intro a
    show a ∈ ExtTreeSet.ofList _ compare ↔ _
    rw [ExtTreeSet.mem_ofList, contains_iff_mem, mem_map]
    have hno : ∀ d, d ∉ (kahnInit (kahnTables nodes deps)).ordered := fun d =>
      ExtTreeSet.not_mem_empty
    constructor
    · rintro ⟨⟨b, n⟩, hb, rfl⟩
      obtain ⟨hb1, hb2⟩ := mem_filter.mp hb
      have hb3 := OrdMap.get_of_mem_toList _ hb1
      rw [h1] at hb3
      by_cases hbn : b ∈ nodes
      · rw [if_pos hbn] at hb3
        have hz : (deps b).length = 0 := by
          have : (deps b).length = n := Option.some.inj hb3
          rw [this]; simpa using hb2
        exact ⟨hbn, hno b, by simp [eq_nil_of_length_eq_zero hz]⟩
      · rw [if_neg hbn] at hb3; exact absurd hb3 (by simp)
    · rintro ⟨han, _, hdeps⟩
      have hnil : deps a = [] := eq_nil_iff_forall_not_mem.mpr (fun d hd => hno d (hdeps d hd))
      refine ⟨(a, 0), mem_filter.mpr ⟨?_, rfl⟩, rfl⟩
      rw [ExtTreeMap.mem_toList_iff_getElem?_eq_some, h1, if_pos han, hnil]
      rfl
  · intro a
    simp [kahnInit]
  · intro a ha
    simp [kahnInit] at ha

section
variable {nodes : List κ} {deps : κ → List κ} {s : KahnState κ} {id : κ}

theorem KahnInv.covers (hnd : nodes.Nodup) (h : KahnInv nodes deps s) (hno : id ∉ s.ordered) :
    Covers (s.indegree, s.ready.erase id) ((kahnTables nodes deps).dependents[id]?.getD []) := by
  rw [(kahnTables_spec deps nodes hnd).2 id]
  intro c hc
  obtain ⟨hcn, _⟩ := (mem_waitingOn deps nodes hnd id c).mp hc
  refine ⟨_, h.counts c hcn, ?_⟩
  have hcount := count_waitingOn deps nodes hnd id c
  rw [if_pos hcn] at hcount
  rw [← countP_open_insert (deps c) s.ordered id hno]
  exact hcount.trans_le (Nat.le_add_left _ _)

theorem kahnStep_release (hnd : nodes.Nodup) (h : KahnInv nodes deps s) (hno : id ∉ s.ordered) :
    (∀ a, (kahnStep (kahnTables nodes deps).dependents s id).indegree[a]?
        = s.indegree[a]?.map (· - (waitingOn nodes deps id).count a)) ∧
      ∀ a, a ∈ (kahnStep (kahnTables nodes deps).dependents s id).ready ↔
        a ∈ s.ready.erase id ∨ (a ∈ waitingOn nodes deps id ∧
          s.indegree[a]? = some ((waitingOn nodes deps id).count a)) := by
  have hrel := release_spec _ _ (h.covers hnd hno)
  unfold kahnStep
  rw [(kahnTables_spec deps nodes hnd).2 id] at hrel ⊢
  exact hrel

theorem KahnInv.open_eq_zero (h : KahnInv nodes deps s) {a : κ} (ha : a ∈ s.ordered) :
    (deps a).countP (fun d => !s.ordered.contains d) = 0 := by
  rw [countP_open_eq_zero]
  intro d hd
  exact (h.mem_order d).mp (h.legal.deps_done ((h.mem_order a).mpr ha) d hd)

theorem KahnInv.enabled_step (h : KahnInv nodes deps s) (hid : id ∈ s.ready) {a : κ} :
    ((a ≠ id ∧ a ∉ s.ordered ∧ ∀ d ∈ deps a, d ∈ s.ordered) ∨ (0 < (deps a).count id ∧
      (deps a).countP (fun d => !s.ordered.contains d) = (deps a).count id)) ↔
      ¬ (a = id ∨ a ∈ s.ordered) ∧ ∀ d ∈ deps a, d ∈ s.ordered.insert id := by
  obtain ⟨_, hno, hdeps⟩ := (h.ready_iff id).mp hid
  have hsum := countP_open_insert (deps a) s.ordered id hno
  rw [← countP_open_eq_zero (deps a) (s.ordered.insert id),
    ← countP_open_eq_zero (deps a) s.ordered]
  by_cases ha : a = id
  · -- the finished node itself: all its dependencies are done, so none of them is itself
    subst ha
    have hc : (deps a).count a = 0 := count_eq_zero.mpr (fun hm => hno (hdeps a hm))
    simp [hc]
  · by_cases hao : a ∈ s.ordered
    · have hz := h.open_eq_zero hao
      simp only [ha, hao, not_true_eq_false, false_and, and_false,
        false_or, iff_false]
      omega
    · simp only [ha, hao, ne_eq, not_false_eq_true, true_and, false_or]
      omega

theorem kahnStep_inv (hnd : nodes.Nodup) (h : KahnInv nodes deps s) (hid : id ∈ s.ready) :
    KahnInv nodes deps (kahnStep (kahnTables nodes deps).dependents s id) := by
  obtain ⟨hin, hno, hdeps⟩ := (h.ready_iff id).mp hid
  have hfresh : id ∉ s.order := fun hm => hno ((h.mem_order id).mp hm)
  obtain ⟨hcounters, hready⟩ := kahnStep_release hnd h hno
  refine ⟨fun a ha => ?_, fun a => ?_, fun a => ?_, ?_, fun a ha => ?_, ?_⟩
  · rw [hcounters, count_waitingOn deps nodes hnd, if_pos ha, h.counts a ha]
    have hopen : (deps a).countP (fun d => !s.ordered.contains d) - (deps a).count id
        = (deps a).countP (fun d => !(s.ordered.insert id).contains d) := by
      have hsum := countP_open_insert (deps a) s.ordered id hno
      omega
    exact congrArg some hopen
  · rw [hready, OrdSet.mem_erase_iff, h.ready_iff a, mem_waitingOn deps nodes hnd,
      count_waitingOn deps nodes hnd]
    show _ ↔ a ∈ nodes ∧ a ∉ s.ordered.insert id ∧ ∀ d ∈ deps a, d ∈ s.ordered.insert id
    by_cases han : a ∈ nodes
    · rw [if_pos han, h.counts a han, Option.some.injEq, OrdSet.mem_insert_iff,
        ← h.enabled_step hid]
      simp only [han, true_and]
    · simp only [han, false_and, and_false, or_self]
  · show a ∈ s.order ++ [id] ↔ a ∈ s.ordered.insert id
    rw [OrdSet.mem_insert_iff, mem_append, h.mem_order a, mem_singleton, or_comm]
  · show (s.order ++ [id]).Nodup
    rw [← concat_eq_append]
    exact h.nodup.concat hfresh
  · rcases mem_append.mp ha with hm | hm
    · exact h.within a hm
    · rw [mem_singleton.mp hm]
      exact hin
  · exact h.legal.concat (by simp) hfresh (fun d hd => .inr ((h.mem_order d).mpr (hdeps d hd)))

end

theorem kahnLoop_inv (hnd : nodes.Nodup) (fuel : Nat) (s : KahnState κ) (h : KahnInv nodes deps s)
    (hf : nodes.length ≤ s.order.length + fuel) :
    KahnInv nodes deps (kahnLoop (kahnTables nodes deps).dependents fuel s) ∧
      ∀ a, a ∉ (kahnLoop (kahnTables nodes deps).dependents fuel s).ready := by
  induction fuel generalizing s with
  | zero =>
    -- every node is ordered, so nothing is ready
    refine ⟨h, fun a ha => ?_⟩
    obtain ⟨han, hao, _⟩ := (h.ready_iff a).mp ha
    have hsub := (subperm_of_subset h.nodup h.within).perm_of_length_le (by omega)
    exact hao ((h.mem_order a).mp (hsub.mem_iff.mpr han))
  | succ fuel ih =>
    rw [kahnLoop]
    cases hm : s.ready.min? with
    | none =>
      have he : s.ready = ∅ := by simpa using hm
      exact ⟨h, fun a ha => by rw [he] at ha; exact absurd ha ExtTreeSet.not_mem_empty⟩
    | some id =>
      have hid : id ∈ s.ready := ExtTreeSet.min?_mem hm
      refine ih _ (kahnStep_inv hnd h hid) ?_
      show nodes.length ≤ (s.order ++ [id]).length + fuel
      rw [length_append, length_singleton]
      omega

theorem kahnLoop_least (hnd : nodes.Nodup) (fuel : Nat) (s : KahnState κ) (h : KahnInv nodes deps s)
    (hl : LeastOrder (compare · · = .lt) nodes deps ∅ s.order) :
    LeastOrder (compare · · = .lt) nodes deps ∅
      (kahnLoop (kahnTables nodes deps).dependents fuel s).order := by
  induction fuel generalizing s with
  | zero => exact hl
  | succ _ ih =>
    rw [kahnLoop]
    cases hm : s.ready.min? with
    | none => exact hl
    | some =>
      refine ih _ (kahnStep_inv hnd h (ExtTreeSet.min?_mem hm)) (hl.concat fun a ha _ hal hd => ?_)
      have hopen : a ∉ s.ordered := fun ho => hal ((h.mem_order a).mpr ho)
      have hready : a ∈ s.ready := (h.ready_iff a).mpr ⟨ha, hopen, fun d hd' =>
        (h.mem_order d).mp ((hd d hd').resolve_left (Set.notMem_empty d))⟩
      exact OrientedCmp.not_lt_of_isLE (ExtTreeSet.min?_le_of_mem hready (by simp [hm]))

theorem kahnLoop_checked (hnd : nodes.Nodup) (fuel : Nat) (s : KahnState κ)
    (h : KahnInv nodes deps s) : kahnLoopChecked (kahnTables nodes deps).dependents fuel s
      = some (kahnLoop (kahnTables nodes deps).dependents fuel s) := by
  induction fuel generalizing s with
  | zero => rfl
  | succ _ ih =>
    rw [kahnLoop, kahnLoopChecked]
    cases hm : s.ready.min? with
    | none => rfl
    | some id =>
      have hid : id ∈ s.ready := ExtTreeSet.min?_mem hm
      obtain ⟨_, hno, _⟩ := (h.ready_iff id).mp hid
      dsimp only
      rw [foldlM_releaseChecked (h.covers hnd hno)]
      exact ih _ (kahnStep_inv hnd h hid)

/-- **Kahn elimination.**  The order is legal and lists each node at most once; the nodes it
leaves over wait for each other. -/
theorem kahn_spec (hnd : nodes.Nodup) (hdeps : ∀ a ∈ nodes, ∀ d ∈ deps a, d ∈ nodes) :
    KahnInv nodes deps (kahn nodes deps) ∧
      Stuck deps {t | t ∈ nodes ∧ t ∉ (kahn nodes deps).ordered} := by
  obtain ⟨hinv, hempty⟩ := kahnLoop_inv nodes deps hnd nodes.length _
    (kahnInit_inv nodes deps hnd) (by omega)
  refine ⟨hinv, ?_⟩
  rintro t ⟨htn, hto⟩
  by_contra hno
  push Not at hno
  refine hempty t ((hinv.ready_iff t).mpr ⟨htn, hto, fun d hd => ?_⟩)
  by_contra hdo
  exact hno d hd ⟨hdeps t htn d hd, hdo⟩

end
end Base

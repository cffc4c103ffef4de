import Orchestraitor.Base.Reach
import Orchestraitor.Board.Query

/-!
# What the walk of the blocked graph finds

The stack and the path of the walk are two views of one list of levels: a node of the path with
those of its blockers that are still to visit.  `Walking` is the invariant of the loop over that
list.  Its two halves are

* the labels: a recorded depth is the length of a path from the root, and an edge from a depth below
  the cap leads to a recorded depth at most one greater, or to a node that is still to visit;
* the settled nodes `D`, whose frame was unwound at least once: as long as no branch was cut off at
  the cap they are closed under the edges and free of cycles, also when a shorter path expands one
  of them again.
-/

namespace Board.Query
open Base Relation List OrdMap Calls

/-- `y` blocks `x` -/
def BlockedBy (edges : List DependencyEdge) (x y : BoardItemId) : Prop :=
  { blocked := x, blocks := y } ∈ edges

abbrev Level := BoardItemId × List BoardItemId

def nodes (levels : List Level) : List BoardItemId := levels.map Prod.fst

def stackOf : List Level → List Frame
  | [] => []
  | (x, rest) :: below => rest.map (.visit · (below.length + 1)) ++
      if below.isEmpty then [] else .exit x :: stackOf below

@[simp] theorem nodes_cons (l : Level) (levels : List Level) :
    nodes (l :: levels) = l.1 :: nodes levels := rfl

theorem stackOf_cons_cons (x y : BoardItemId) (rest : List BoardItemId) (below : List Level) :
    stackOf ((x, y :: rest) :: below) =
      .visit y (below.length + 1) :: stackOf ((x, rest) :: below) := rfl

theorem stackOf_cons_nil (x : BoardItemId) {below : List Level} (h : below ≠ []) :
    stackOf ((x, []) :: below) = .exit x :: stackOf below := by
  cases below with
  | nil => exact absurd rfl h
  | cons => rfl

variable {levels : List Level} {item : BoardItemId} {provider : Snapshot}

theorem stackOf_visit {depth : Nat} {stack : List Frame}
    (h : stackOf levels = .visit item depth :: stack) :
    ∃ x rest below, levels = (x, item :: rest) :: below ∧ depth = below.length + 1 ∧
      stack = stackOf ((x, rest) :: below) := by
  rcases levels with _ | ⟨⟨x, rest⟩, below⟩
  · exact absurd h (by simp [stackOf])
  · cases rest with
    | cons y rest =>
      obtain ⟨hv, rfl⟩ := cons.inj h
      obtain ⟨rfl, rfl⟩ := Frame.visit.inj hv
      exact ⟨x, rest, below, rfl, rfl, rfl⟩
    | nil =>
      cases below with
      | nil => exact absurd h (by simp [stackOf])
      | cons =>
        exact absurd (cons.inj h).1 (by simp)

theorem stackOf_exit {x : BoardItemId} {stack : List Frame} (h : stackOf levels = .exit x :: stack) :
    ∃ below, below ≠ [] ∧ levels = (x, []) :: below ∧ stack = stackOf below := by
  rcases levels with _ | ⟨⟨y, rest⟩, below⟩
  · exact absurd h (by simp [stackOf])
  · cases rest with
    | cons =>
      exact absurd (cons.inj h).1 (by simp)
    | nil =>
      cases below with
      | nil => exact absurd h (by simp [stackOf])
      | cons l below =>
        obtain ⟨hx, rfl⟩ := cons.inj h
        obtain rfl := Frame.exit.inj hx
        exact ⟨l :: below, by simp, rfl, rfl⟩

theorem stackOf_nil (h : stackOf levels = []) : levels = [] ∨ ∃ x, levels = [(x, [])] := by
  rcases levels with _ | ⟨⟨x, rest⟩, below⟩
  · exact Or.inl rfl
  · cases rest with
    | cons => exact absurd h (by rw [stackOf_cons_cons]; simp)
    | nil =>
      cases below with
      | nil => exact Or.inr ⟨x, rfl⟩
      | cons => exact absurd h (by rw [stackOf_cons_nil x (by simp)]; simp)

/-! ## the path -/

/-- the path runs along edges from the root and repeats no node -/
structure Shape (edges : List DependencyEdge) (root : BoardItemId) (levels : List Level) :
    Prop where
  bottom : (nodes levels).getLast? = some root
  nodup : (nodes levels).Nodup
  chain : (nodes levels).IsChain (fun up down => BlockedBy edges down up)
  rest : ∀ l ∈ levels, ∀ y ∈ l.2, BlockedBy edges l.1 y

namespace Shape
variable {edges : List DependencyEdge} {root x item : BoardItemId} {rest : List BoardItemId}
  {below levels : List Level}

theorem root_mem (h : Shape edges root levels) : root ∈ nodes levels :=
  mem_of_getLast? h.bottom

theorem pop (h : Shape edges root ((x, item :: rest) :: below)) :
    Shape edges root ((x, rest) :: below) := by
  refine ⟨h.bottom, h.nodup, h.chain, fun l hl y hy => ?_⟩
  rcases mem_cons.mp hl with rfl | hl
  · exact h.rest _ mem_cons_self y (mem_cons_of_mem _ hy)
  · exact h.rest l (mem_cons_of_mem _ hl) y hy

theorem unwind (h : Shape edges root ((x, []) :: below)) (hb : below ≠ []) :
    Shape edges root below := by
  refine ⟨?_, (nodup_cons.mp h.nodup).2, h.chain.tail, fun l hl y hy => ?_⟩
  · obtain ⟨l, below, rfl⟩ := exists_cons_of_ne_nil hb
    simpa using h.bottom
  · exact h.rest l (mem_cons_of_mem _ hl) y hy

theorem push (h : Shape edges root ((x, item :: rest) :: below))
    (hitem : item ∉ nodes ((x, rest) :: below)) :
    Shape edges root ((item, (blockersOf (directBlockers edges) item).reverse) ::
      (x, rest) :: below) := by
  have hp := h.pop
  refine ⟨?_, nodup_cons.mpr ⟨hitem, hp.nodup⟩, ?_, fun l hl y hy => ?_⟩
  · simpa using hp.bottom
  · exact isChain_cons_cons.mpr ⟨h.rest _ mem_cons_self item mem_cons_self, hp.chain⟩
  · rcases mem_cons.mp hl with rfl | hl
    · exact mem_blockersOf.mp (mem_reverse.mp hy)
    · exact hp.rest l hl y hy

theorem steps (h : Shape edges root ((x, rest) :: below)) :
    Steps (BlockedBy edges) below.length root x := by
  have hs := steps_of_chain h.chain h.bottom
  rwa [show (below.map Prod.fst).length = below.length from length_map _] at hs

end Shape

/-! ## the labels -/

def Labelled (seen : OrdMap BoardItemId Nat) : List Level → Prop
  | [] => True
  | (x, _) :: below => (∃ e, seen[x]? = some e ∧ e ≤ below.length) ∧ Labelled seen below

theorem Labelled.lt_length {seen : OrdMap BoardItemId Nat} (h : Labelled seen levels)
    {x : BoardItemId} (hx : x ∈ nodes levels) : ∃ e, seen[x]? = some e ∧ e < levels.length := by
  induction levels with
  | nil => exact absurd hx (by simp [nodes])
  | cons _ _ ih =>
    rw [nodes_cons, mem_cons] at hx
    rcases hx with rfl | hx
    · obtain ⟨e, he, hle⟩ := h.1
      exact ⟨e, he, by rw [length_cons]; omega⟩
    · obtain ⟨e, he, hlt⟩ := ih h.2 hx
      exact ⟨e, he, by rw [length_cons]; omega⟩

theorem Labelled.insert {seen : OrdMap BoardItemId Nat} (h : Labelled seen levels)
    (hi : item ∉ nodes levels) (depth : Nat) : Labelled (seen.insert item depth) levels := by
  induction levels with
  | nil => trivial
  | cons _ _ ih =>
    rw [nodes_cons, mem_cons, not_or] at hi
    refine ⟨?_, ih h.2 hi.2⟩
    obtain ⟨e, he, hle⟩ := h.1
    exact ⟨e, by rw [get_insert, if_neg (fun hx => hi.1 hx.symm), he], hle⟩

/-- recorded depths are path lengths up to the cap, and an edge from one below the cap leads to a depth at
most one greater or to a node still to visit -/
structure Labels (edges : List DependencyEdge) (root : BoardItemId)
    (seen : OrdMap BoardItemId Nat) (stack : List Frame) : Prop where
  start : seen[root]? = some 0
  path : ∀ x d, seen[x]? = some d → d ≤ maxBlockedDepth ∧ Steps (BlockedBy edges) d root x
  edge : ∀ x d y, seen[x]? = some d → d < maxBlockedDepth → BlockedBy edges x y →
    (∃ e, seen[y]? = some e ∧ e ≤ d + 1) ∨ .visit y (d + 1) ∈ stack

namespace Labels
variable {edges : List DependencyEdge} {root item : BoardItemId} {seen : OrdMap BoardItemId Nat}
  {stack : List Frame} {depth : Nat}

theorem pop {f : Frame} (h : Labels edges root seen (f :: stack))
    (hf : ∀ y d, f = .visit y (d + 1) → d < maxBlockedDepth → ∃ e, seen[y]? = some e ∧ e ≤ d + 1) :
    Labels edges root seen stack := by
  refine ⟨h.start, h.path, fun x d y hx hd hxy => ?_⟩
  rcases h.edge x d y hx hd hxy with he | hm
  · exact Or.inl he
  · rcases mem_cons.mp hm with hm | hm
    · exact Or.inl (hf y d hm.symm hd)
    · exact Or.inr hm

theorem expand (h : Labels edges root seen (.visit item depth :: stack))
    (hd : ∀ d, seen[item]? = some d → depth < d) (hcap : depth ≤ maxBlockedDepth)
    (hroot : item ≠ root) (hp : Steps (BlockedBy edges) depth root item) :
    Labels edges root (seen.insert item depth)
      (pushAll (blockersOf (directBlockers edges) item) (depth + 1) (.exit item :: stack)) := by
  refine ⟨?_, fun x d hx => ?_, fun x d y hx hlt hxy => ?_⟩
  · rw [get_insert, if_neg (fun e => hroot e.symm), h.start]
  · rw [get_insert] at hx
    split_ifs at hx with e
    · obtain rfl := Option.some.inj hx
      rw [e]
      exact ⟨hcap, hp⟩
    · exact h.path x d hx
  · rw [get_insert] at hx
    split_ifs at hx with e
    · -- the edges of the new node are all pushed
      obtain rfl := Option.some.inj hx
      subst e
      exact Or.inr (mem_pushAll.mpr (Or.inl ⟨y, mem_blockersOf.mpr hxy, rfl⟩))
    · rcases h.edge x d y hx hlt hxy with ⟨e', he', hle⟩ | hm
      · refine Or.inl ?_
        rw [get_insert]
        split_ifs with hy
        · have := hd e' (hy ▸ he')
          exact ⟨depth, rfl, by omega⟩
        · exact ⟨e', he', hle⟩
      · rcases mem_cons.mp hm with hm | hm
        · obtain ⟨rfl, rfl⟩ := Frame.visit.inj hm
          exact Or.inl ⟨d + 1, by rw [get_insert, if_pos rfl], le_refl _⟩
        · exact Or.inr (mem_pushAll.mpr (Or.inr (mem_cons_of_mem _ hm)))

end Labels

/-! ## the settled nodes -/

/-- every blocker of a node of the path is settled, still to visit, or the next node of the path -/
def Covered (edges : List DependencyEdge) (D : Set BoardItemId) :
    Option BoardItemId → List Level → Prop
  | _, [] => True
  | above, (x, rest) :: below =>
    (∀ y, BlockedBy edges x y → y ∈ D ∨ y ∈ rest ∨ above = some y) ∧ Covered edges D (some x) below

namespace Covered
variable {edges : List DependencyEdge} {D : Set BoardItemId} {x item : BoardItemId}
  {above : Option BoardItemId} {rest : List BoardItemId} {below levels : List Level}

theorem mono {D' : Set BoardItemId} (h : Covered edges D above levels) (hD : D ⊆ D') :
    Covered edges D' above levels := by
  induction levels generalizing above with
  | nil => trivial
  | cons _ _ ih => exact ⟨fun y hy => (h.1 y hy).imp_left (@hD y), ih h.2⟩

theorem pop (h : Covered edges D none ((x, item :: rest) :: below)) (hi : item ∈ D) :
    Covered edges D none ((x, rest) :: below) := by
  refine ⟨fun y hy => ?_, h.2⟩
  rcases h.1 y hy with hD | hr | ha
  · exact Or.inl hD
  · rcases mem_cons.mp hr with rfl | hr
    · exact Or.inl hi
    · exact Or.inr (Or.inl hr)
  · exact absurd ha (by simp)

theorem push (h : Covered edges D none ((x, item :: rest) :: below)) :
    Covered edges D none ((item, (blockersOf (directBlockers edges) item).reverse) ::
      (x, rest) :: below) := by
  refine ⟨fun y hy => ?_, fun y hy => ?_, h.2⟩
  · exact Or.inr (Or.inl (mem_reverse.mpr (mem_blockersOf.mpr hy)))
  · rcases h.1 y hy with hD | hr | ha
    · exact Or.inl hD
    · rcases mem_cons.mp hr with rfl | hr
      · exact Or.inr (Or.inr rfl)
      · exact Or.inr (Or.inl hr)
    · exact absurd ha (by simp)

theorem settled (h : Covered edges D none ((x, []) :: below)) :
    ∀ y, BlockedBy edges x y → y ∈ D := by
  intro y hy
  rcases h.1 y hy with hD | hr | ha
  · exact hD
  · exact absurd hr (by simp)
  · exact absurd ha (by simp)

theorem unwind (h : Covered edges D none ((x, []) :: below)) :
    Covered edges (insert x D) none below := by
  have h2 := h.2.mono (Set.subset_insert x D)
  cases below with
  | nil => trivial
  | cons =>
    refine ⟨fun y hy => ?_, h2.2⟩
    rcases h2.1 y hy with hD | hr | ha
    · exact Or.inl hD
    · exact Or.inr (Or.inl hr)
    · obtain rfl := Option.some.inj ha
      exact Or.inl (Set.mem_insert x D)

end Covered

/-! ## the invariant of the loop -/

/-- the state of the walk, read off its levels and its settled nodes `D` -/
structure Walking (edges : List DependencyEdge) (root : BoardItemId) (s : WalkState)
    (levels : List Level) (D : Set BoardItemId) : Prop where
  shape : Shape edges root levels
  stack : s.stack = stackOf levels
  path : s.path = (nodes levels).reverse
  noCycle : s.cycle = none
  labelled : Labelled s.seen levels
  labels : Labels edges root s.seen s.stack
  blocking : ∀ x, x ∈ s.blocking ↔ x ≠ root ∧ s.seen[x]? ≠ none
  known : ∀ x, s.seen[x]? ≠ none → x ∈ D ∨ x ∈ nodes levels
  done : ∀ x ∈ D, s.seen[x]? ≠ none
  settled : s.depthCapped = false →
    Settled (BlockedBy edges) D ∧ root ∉ D ∧ Covered edges D none levels

namespace Walking
variable {edges : List DependencyEdge} {root : BoardItemId} {s : WalkState} {levels : List Level}
  {D : Set BoardItemId}

theorem init (edges : List DependencyEdge) (root : BoardItemId) :
    Walking edges root (walkInit (directBlockers edges) root)
      [(root, (blockersOf (directBlockers edges) root).reverse)] ∅ where
  shape := by
    refine ⟨rfl, by simp [nodes], by simp [nodes], fun l hl y hy => ?_⟩
    obtain rfl := mem_singleton.mp hl
    exact mem_blockersOf.mp (mem_reverse.mp hy)
  stack := rfl
  path := rfl
  noCycle := rfl
  labelled := ⟨⟨0, by simp [walkInit], le_refl 0⟩, trivial⟩
  labels := by
    have hseen : ∀ x d, (walkInit (directBlockers edges) root).seen[x]? = some d →
        x = root ∧ d = 0 := by
      intro x d hx
      rw [walkInit, get_insert] at hx
      split_ifs at hx with e
      · exact ⟨e, (Option.some.inj hx).symm⟩
      · exact absurd hx (by simp)
    refine ⟨by simp [walkInit], fun x d hx => ?_, fun x d y hx _ hxy => ?_⟩
    · obtain ⟨rfl, rfl⟩ := hseen x d hx
      exact ⟨Nat.zero_le _, rfl⟩
    · obtain ⟨rfl, rfl⟩ := hseen x d hx
      exact Or.inr (mem_pushAll.mpr (Or.inl ⟨y, mem_blockersOf.mpr hxy, rfl⟩))
  blocking := by
    intro x
    rw [walkInit, get_insert]
    by_cases e : x = root <;> simp [e]
  known := by
    intro x hx
    refine Or.inr ?_
    rw [walkInit, get_insert] at hx
    by_cases e : x = root
    · simp [nodes, e]
    · exact absurd hx (by simp [e])
  done := fun x hx => hx.elim
  settled := fun _ => ⟨Settled.empty, fun h => h.elim,
    fun y hy => Or.inr (Or.inl (mem_reverse.mpr (mem_blockersOf.mpr hy))), trivial⟩

variable {item : BoardItemId} {depth : Nat}

/-- a node of the path has a smaller recorded depth than any frame on top of the stack -/
theorem not_mem_path (h : Walking edges root s levels D) {stack : List Frame}
    (hs : s.stack = .visit item depth :: stack) (hd : ∀ d, s.seen[item]? = some d → depth < d) :
    item ∉ nodes levels := by
  intro hm
  obtain ⟨x, rest, below, rfl, rfl, -⟩ := stackOf_visit (h.stack ▸ hs)
  obtain ⟨e, he, hlt⟩ := h.labelled.lt_length hm
  have := hd e he
  rw [length_cons] at hlt
  omega

theorem exit (h : Walking edges root s levels D) {x : BoardItemId} {stack : List Frame}
    (hs : s.stack = .exit x :: stack) : ∃ levels' D',
      Walking edges root { s with stack, path := s.path.dropLast } levels' D' := by
  obtain ⟨below, hb, rfl, rfl⟩ := stackOf_exit (h.stack ▸ hs)
  have hlabels := h.labels
  rw [hs] at hlabels
  refine ⟨below, insert x D, h.shape.unwind hb, rfl, ?_, h.noCycle, h.labelled.2,
    hlabels.pop (fun y d e => absurd e (by simp)), h.blocking, fun y hy => ?_, fun y hy => ?_,
    fun hcap => ?_⟩
  · show s.path.dropLast = _
    rw [h.path, nodes_cons, reverse_cons, dropLast_concat]
  · rcases h.known y hy with hD | hm
    · exact Or.inl (Or.inr hD)
    · rcases mem_cons.mp hm with rfl | hm
      · exact Or.inl (Set.mem_insert _ D)
      · exact Or.inr hm
  · rcases hy with rfl | hy
    · obtain ⟨e, he, -⟩ := h.labelled.1
      rw [he]
      simp
    · exact h.done y hy
  · obtain ⟨hset, hroot, hcov⟩ := h.settled hcap
    refine ⟨hset.insert hcov.settled, ?_, hcov.unwind⟩
    rintro (rfl | hD)
    · exact (nodup_cons.mp h.shape.nodup).1 (h.shape.unwind hb).root_mem
    · exact hroot hD

theorem revisit (h : Walking edges root s levels D) {d : Nat} {stack : List Frame}
    (hs : s.stack = .visit item depth :: stack) (hd : s.seen[item]? = some d) (hle : d ≤ depth)
    (hpath : item ∉ s.path) : ∃ levels', Walking edges root { s with stack } levels' D := by
  obtain ⟨x, rest, below, rfl, rfl, rfl⟩ := stackOf_visit (h.stack ▸ hs)
  have hlabels := h.labels
  rw [hs] at hlabels
  have hD : item ∈ D := by
    rcases h.known item (by rw [hd]; simp) with hD | hm
    · exact hD
    · exact absurd (by rw [h.path]; exact mem_reverse.mpr hm) hpath
  refine ⟨(x, rest) :: below, h.shape.pop, rfl, h.path, h.noCycle, h.labelled, hlabels.pop ?_,
    h.blocking, h.known, h.done, fun hcap => ?_⟩
  · intro _ _ e _
    obtain ⟨rfl, e⟩ := Frame.visit.inj e
    exact ⟨d, hd, by omega⟩
  · obtain ⟨hset, hroot, hcov⟩ := h.settled hcap
    exact ⟨hset, hroot, hcov.pop hD⟩

theorem cap (h : Walking edges root s levels D) {stack : List Frame}
    (hs : s.stack = .visit item depth :: stack) (hcap : maxBlockedDepth < depth) :
    ∃ levels', Walking edges root { s with stack, depthCapped := true } levels' D := by
  obtain ⟨x, rest, below, rfl, rfl, rfl⟩ := stackOf_visit (h.stack ▸ hs)
  have hlabels := h.labels
  rw [hs] at hlabels
  refine ⟨(x, rest) :: below, h.shape.pop, rfl, h.path, h.noCycle, h.labelled, hlabels.pop ?_,
    h.blocking, h.known, h.done, fun hf => absurd hf (by simp)⟩
  intro _ _ e _
  have := (Frame.visit.inj e).2
  omega

theorem expand (h : Walking edges root s levels D) {stack : List Frame}
    (hs : s.stack = .visit item depth :: stack) (hd : ∀ d, s.seen[item]? = some d → depth < d)
    (hcap : depth ≤ maxBlockedDepth) : ∃ levels', Walking edges root
      (Query.expand (directBlockers edges) { s with stack } item depth) levels' D := by
  have hfresh := h.not_mem_path hs hd
  have hroot : item ≠ root := fun e => hfresh (e ▸ h.shape.root_mem)
  obtain ⟨x, rest, below, rfl, rfl, rfl⟩ := stackOf_visit (h.stack ▸ hs)
  have hlabels := h.labels
  rw [hs] at hlabels
  have hedge := h.shape.rest _ mem_cons_self item mem_cons_self
  refine ⟨(item, (blockersOf (directBlockers edges) item).reverse) :: (x, rest) :: below,
    h.shape.push hfresh, rfl, ?_, h.noCycle, ?_,
    hlabels.expand hd hcap hroot ⟨x, h.shape.steps, hedge⟩, fun y => ?_, fun y hy => ?_,
    fun y hy => ?_, fun hc => ?_⟩
  · show s.path ++ [item] = _
    rw [h.path]
    simp [nodes]
  · refine ⟨⟨below.length + 1, ?_, le_refl _⟩, h.labelled.insert hfresh _⟩
    rw [Query.expand, get_insert, if_pos rfl]
  · show y ∈ s.blocking ++ [item] ↔ y ≠ root ∧ (s.seen.insert item (below.length + 1))[y]? ≠ none
    rw [mem_append, h.blocking]
    by_cases e : y = item
    · subst e
      simp [hroot]
    · simp [e]
  · by_cases e : y = item
    · exact Or.inr (e ▸ mem_cons_self)
    · rw [Query.expand, get_insert, if_neg e] at hy
      exact (h.known y hy).imp_right (mem_cons_of_mem item)
  · rw [Query.expand, get_insert]
    split_ifs
    · simp
    · exact h.done y hy
  · obtain ⟨hset, hr, hcov⟩ := h.settled hc
    exact ⟨hset, hr, hcov.push⟩

theorem round (h : Walking edges root s levels D) {s' : WalkState}
    (hr : Round (directBlockers edges) s s') : ∃ levels' D', Walking edges root s' levels' D' := by
  cases hr with
  | exit hs => exact h.exit hs
  | revisit hs hd hle hpath =>
    obtain ⟨levels', h'⟩ := h.revisit hs hd hle hpath
    exact ⟨levels', D, h'⟩
  | cap hs _ hcap =>
    obtain ⟨levels', h'⟩ := h.cap hs hcap
    exact ⟨levels', D, h'⟩
  | expand hs hd hcap =>
    obtain ⟨levels', h'⟩ := h.expand hs hd hcap
    exact ⟨levels', D, h'⟩

end Walking

/-! ## how the walk ends -/

/-- the path runs along edges from the root, and an edge leads from its end back to `item` on it -/
structure CycleFrom (edges : List DependencyEdge) (root : BoardItemId) (c : BlockedCycle) :
    Prop where
  start : c.path.head? = some root
  chain : c.path.IsChain (BlockedBy edges)
  mem : c.item ∈ c.path
  closes : ∃ last, c.path.getLast? = some last ∧ BlockedBy edges last c.item

theorem Walking.cycleFrom {edges : List DependencyEdge} {root : BoardItemId} {s : WalkState}
    {D : Set BoardItemId} (h : Walking edges root s levels D) {depth : Nat} {stack : List Frame}
    (hs : s.stack = .visit item depth :: stack) (hp : item ∈ s.path) :
    CycleFrom edges root { item, path := s.path } := by
  obtain ⟨x, rest, below, rfl, -, -⟩ := stackOf_visit (h.stack ▸ hs)
  refine ⟨?_, ?_, hp, x, ?_, h.shape.rest _ mem_cons_self item mem_cons_self⟩
  · show s.path.head? = _
    rw [h.path, head?_reverse]
    exact h.shape.bottom
  · show s.path.IsChain _
    rw [h.path, isChain_reverse]
    exact h.shape.chain
  · show s.path.getLast? = _
    rw [h.path, nodes_cons, reverse_cons, getLast?_concat]

/-- the loop is left with every level done, or at a cycle -/
structure Left (edges : List DependencyEdge) (root : BoardItemId) (r : WalkState) : Prop where
  blocking : ∀ x ∈ r.blocking, x ≠ root
  finished : r.cycle = none → ∃ D, Walking edges root r [(root, [])] D
  cycle : ∀ c, r.cycle = some c → CycleFrom edges root c

theorem left_walk (edges : List DependencyEdge) (root : BoardItemId) :
    Left edges root (walk edges root) := by
  have hw : loop (walkStep (directBlockers edges)) (walkFuel edges)
      (walkInit (directBlockers edges) root) = some (walk edges root) :=
    (Option.some_get _).symm
  refine loop_spec (I := fun s => ∃ levels D, Walking edges root s levels D) ?_ ?_
    ⟨_, _, Walking.init edges root⟩ hw
  · rintro s s' ⟨levels, D, h⟩ hstep
    exact h.round (walkStep_inl hstep)
  · rintro s r ⟨levels, D, h⟩ hstep
    rcases walkStep_inr hstep with ⟨hs, rfl⟩ | ⟨item, depth, stack, hs, hp, rfl⟩
    · refine ⟨fun x hx => ((h.blocking x).mp hx).1, fun _ => ⟨D, ?_⟩, fun c hc => ?_⟩
      · -- the stack is empty: one level is left, and it is the root's
        rcases stackOf_nil (h.stack ▸ hs) with rfl | ⟨x, rfl⟩
        · exact absurd h.shape.bottom (by simp [nodes])
        · obtain rfl : x = root := by simpa [nodes] using h.shape.bottom
          exact h
      · exact absurd hc (by rw [h.noCycle]; simp)
    · refine ⟨fun x hx => ((h.blocking x).mp hx).1, fun hc => absurd hc (by simp), fun c hc => ?_⟩
      obtain rfl := Option.some.inj hc
      exact h.cycleFrom hs hp

namespace Walking
variable {edges : List DependencyEdge} {root : BoardItemId} {s : WalkState} {D : Set BoardItemId}

theorem relaxed (h : Walking edges root s [(root, [])] D) :
    Relaxed (BlockedBy edges) root maxBlockedDepth (fun x => s.seen[x]?) := by
  refine ⟨h.labels.start, h.labels.path, fun x d y hx hd hxy => ?_⟩
  rcases h.labels.edge x d y hx hd hxy with he | hm
  · exact he
  · rw [h.stack] at hm
    exact absurd hm (by simp [stackOf])

theorem mem_blocking (h : Walking edges root s [(root, [])] D) (x : BoardItemId) : x ∈ s.blocking ↔
      ∃ d, 1 ≤ d ∧ d ≤ maxBlockedDepth ∧ IsDistance (BlockedBy edges) root x d := by
  rw [h.blocking]
  constructor
  · rintro ⟨hx, hseen⟩
    obtain ⟨d, hd⟩ := Option.ne_none_iff_exists'.mp hseen
    obtain ⟨hcap, hdist⟩ := (h.relaxed.distance x d).mp hd
    refine ⟨d, ?_, hcap, hdist⟩
    rcases Nat.eq_zero_or_pos d with rfl | hpos
    · exact absurd (show root = x from hdist.1).symm hx
    · exact hpos
  · rintro ⟨d, hpos, hcap, hdist⟩
    refine ⟨?_, ?_⟩
    · rintro rfl
      have := hdist.2 0 rfl
      omega
    · rw [(h.relaxed.distance x d).mpr ⟨hcap, hdist⟩]
      simp

/-- no branch was cut off: the graph below the root has no cycle, and every node was found -/
theorem complete (h : Walking edges root s [(root, [])] D) (hcap : s.depthCapped = false) :
    (∀ v, ReflTransGen (BlockedBy edges) root v → ¬ TransGen (BlockedBy edges) v v) ∧
      ∀ x, x ∈ s.blocking ↔ TransGen (BlockedBy edges) root x := by
  obtain ⟨hset, hroot, hcov⟩ := h.settled hcap
  have hacyclic : ¬ TransGen (BlockedBy edges) root root := hset.no_cycle hroot hcov.settled
  have hbelow : ∀ v, TransGen (BlockedBy edges) root v → v ∈ D := by
    intro v hv
    obtain ⟨y, hy, hyv⟩ := TransGen.head'_iff.mp hv
    exact hset.reach (hcov.settled y hy) hyv
  refine ⟨fun v hv => ?_, fun x => ?_⟩
  · rcases reflTransGen_iff_eq_or_transGen.mp hv with rfl | hv
    · exact hacyclic
    · exact hset.acyclic v (hbelow v hv)
  · rw [h.blocking]
    constructor
    · rintro ⟨hx, hseen⟩
      obtain ⟨d, hd⟩ := Option.ne_none_iff_exists'.mp hseen
      rcases reflTransGen_iff_eq_or_transGen.mp (h.labels.path x d hd).2.reach with e | ht
      · exact absurd e hx
      · exact ht
    · intro hx
      exact ⟨fun e => hacyclic (e ▸ hx), h.done x (hbelow x hx)⟩

end Walking

/-! ## the query over a board -/

abbrev Snapshot := (q : BoardCall) → q.Answer

def Shows (provider : Snapshot) (edges : List DependencyEdge) (id : BoardItemId)
    (q : BoardQueryItem) : Prop :=
  ∃ catalog item, provider .fields = .ok catalog ∧ provider (.item id) = .ok item ∧
    Calls.eval provider (projectItem (directBlockers edges) catalog item).run = .ok q

section
variable (provider : Snapshot) (index : OrdMap BoardItemId (List BoardItemId))
  (catalog : List BoardField)

theorem eval_read (q : BoardCall) :
    eval provider (read q).run = (provider q).mapError .ofContract := rfl

theorem eval_fetchBlocking_cons (id : BoardItemId) (ids : List BoardItemId) :
    eval provider (fetchBlocking index catalog (id :: ids)).run =
      match provider (.item id) with
      | .ok item => do
        let projected ← eval provider (projectItem index catalog item).run
        let rest ← eval provider (fetchBlocking index catalog ids).run
        return projected :: rest
      | .error _ => eval provider (fetchBlocking index catalog ids).run := by
  show eval provider (ExceptT.run (match provider (.item id) with
    | .ok item => _
    | .error _ => _)) = _
  cases provider (.item id) with
  | error => rfl
  | ok =>
    rw [eval_bindE]
    congr 1
    funext projected
    rw [eval_bindE]
    rfl

variable {provider index catalog}

theorem mem_fetchBlocking {ids : List BoardItemId} {l : List BoardQueryItem}
    (h : eval provider (fetchBlocking index catalog ids).run = .ok l) (q : BoardQueryItem) :
    q ∈ l ↔ ∃ id ∈ ids, ∃ item, provider (.item id) = .ok item ∧
      eval provider (projectItem index catalog item).run = .ok q := by
  induction ids generalizing l with
  | nil =>
    obtain rfl : [] = l := Except.ok.inj h
    simp
  | cons id _ ih =>
    rw [eval_fetchBlocking_cons] at h
    cases hid : provider (.item id) with
    | error =>
      rw [hid] at h
      simp [ih h, hid]
    | ok item =>
      rw [hid] at h
      obtain ⟨projected, hp, h⟩ := bind_ok h
      obtain ⟨rest, hrest, h⟩ := bind_ok h
      obtain rfl : projected :: rest = l := Except.ok.inj h
      rw [mem_cons, ih hrest, exists_mem_cons_iff, hid]
      refine or_congr_left ⟨?_, ?_⟩
      · rintro rfl
        exact ⟨item, rfl, hp⟩
      · rintro ⟨item', he, hq⟩
        obtain rfl := Except.ok.inj he
        exact Except.ok.inj (hq.symm.trans hp)

end

theorem eval_walkBlocked {root : BoardItemId} {rootExists : Bool} {edges : List DependencyEdge}
    {graph : BlockedGraph} (h : eval provider (walkBlocked root rootExists edges).run = .ok graph) :
    graph.cycle = (walk edges root).cycle ∧ graph.depthCapped = (walk edges root).depthCapped ∧
      ∀ q, q ∈ graph.blocking ↔ ∃ b ∈ (walk edges root).blocking, Shows provider edges b q := by
  rw [walkBlocked, eval_bindE, eval_read] at h
  obtain ⟨catalog, hcat, h⟩ := bind_ok h
  rw [eval_bindE] at h
  obtain ⟨blocking, hb, h⟩ := bind_ok h
  obtain rfl := Except.ok.inj h
  have hfields : provider .fields = .ok catalog := by
    cases hf : provider .fields with
    | error => simp [hf, Except.mapError] at hcat
    | ok =>
      rw [hf] at hcat
      exact congrArg Except.ok (Except.ok.inj hcat)
  refine ⟨rfl, rfl, fun q => ?_⟩
  rw [mem_sortByKey, mem_fetchBlocking hb]
  simp only [mem_sortDedup]
  constructor
  · rintro ⟨id, hid, item, hitem, hq⟩
    exact ⟨id, hid, catalog, item, hfields, hitem, hq⟩
  · rintro ⟨id, hid, catalog', item, hf', hitem, hq⟩
    obtain rfl := Except.ok.inj (hfields.symm.trans hf')
    exact ⟨id, hid, item, hitem, hq⟩

theorem exists_projectItem (hv : ∀ id field, ∃ v, provider (.fieldValue id field) = .ok v)
    (index : OrdMap BoardItemId (List BoardItemId)) (catalog : List BoardField) (item : BoardItem) :
    ∃ q, eval provider (projectItem index catalog item).run = .ok q := by
  rw [projectItem, eval_bindE, eval_foldlM]
  have hfold : ∀ fields : OrdMap String BoardQueryFieldValue, ∃ fields',
      catalog.foldlM (fun fields field =>
        eval provider (readField item.id fields field).run) fields = Except.ok fields' := by
    induction catalog with
    | nil => exact fun fields => ⟨fields, rfl⟩
    | cons field _ ih =>
      intro _
      obtain ⟨v, hv⟩ := hv item.id field.name
      rw [foldlM_cons, readField, eval_bindE, eval_read, hv]
      exact ih _
  obtain ⟨fields', hf⟩ := hfold ∅
  exact ⟨_, by rw [hf]; rfl⟩

theorem exists_fetchBlocking (hv : ∀ id field, ∃ v, provider (.fieldValue id field) = .ok v)
    (index : OrdMap BoardItemId (List BoardItemId)) (catalog : List BoardField)
    (ids : List BoardItemId) :
    ∃ l, eval provider (fetchBlocking index catalog ids).run = .ok l := by
  induction ids with
  | nil => exact ⟨[], rfl⟩
  | cons id _ ih =>
    obtain ⟨rest, hrest⟩ := ih
    rw [eval_fetchBlocking_cons]
    cases provider (.item id) with
    | error => exact ⟨rest, hrest⟩
    | ok item =>
      obtain ⟨q, hq⟩ := exists_projectItem hv index catalog item
      exact ⟨q :: rest, by simp [hq, hrest, bind, Except.bind, pure, Except.pure]⟩

/-- **The blocked graph.**  The loop of the walk ends, for every set of edges and every root, and
the query returns a graph when the field reads succeed.  A graph without a cycle lists what the
board has of the items at distance 1 to 64; if no branch was cut off either, the graph below the
root is acyclic and the list is complete.  A reported cycle is a path from the root with an edge
back to one of its nodes. -/
theorem walkBlocked_correct (provider : Snapshot) (root : BoardItemId) (rootExists : Bool)
    (edges : List DependencyEdge) :
    (∃ n, ∀ m, n ≤ m → loop (walkStep (directBlockers edges)) m
      (walkInit (directBlockers edges) root) = some (walk edges root)) ∧
    ((∃ catalog, provider .fields = .ok catalog) →
      (∀ id field, ∃ v, provider (.fieldValue id field) = .ok v) →
      ∃ graph, Calls.eval provider (walkBlocked root rootExists edges).run = .ok graph) ∧
    ∀ graph, Calls.eval provider (walkBlocked root rootExists edges).run = .ok graph →
      (graph.cycle = none →
        (∀ q, q ∈ graph.blocking ↔ ∃ b,
          (∃ d, 1 ≤ d ∧ d ≤ 64 ∧ IsDistance (BlockedBy edges) root b d) ∧
            Shows provider edges b q) ∧
        (graph.depthCapped = false →
          (∀ v, ReflTransGen (BlockedBy edges) root v → ¬ TransGen (BlockedBy edges) v v) ∧
          ∀ q, q ∈ graph.blocking ↔ ∃ b, TransGen (BlockedBy edges) root b ∧
            Shows provider edges b q)) ∧
      ∀ c, graph.cycle = some c → CycleFrom edges root c := by
  have hleft := left_walk edges root
  refine ⟨⟨walkFuel edges, fun m hm => loop_mono (Option.some_get _).symm hm⟩, ?_, ?_⟩
  · rintro ⟨catalog, hcat⟩ hv
    obtain ⟨l, hl⟩ := exists_fetchBlocking hv (directBlockers edges) catalog
      (sortDedup (walk edges root).blocking)
    rw [walkBlocked, eval_bindE, eval_read, hcat]
    show ∃ graph, eval provider (ExceptT.run (_ >>= _)) = .ok graph
    rw [eval_bindE, hl]
    exact ⟨_, rfl⟩
  · intro _ hgraph
    obtain ⟨hcycle, hcapped, hblocking⟩ := eval_walkBlocked hgraph
    refine ⟨fun hnone => ?_, fun c hc => hleft.cycle c (hcycle ▸ hc)⟩
    obtain ⟨D, hw⟩ := hleft.finished (hcycle ▸ hnone)
    refine ⟨fun q => ?_, fun hcap => ?_⟩
    · rw [hblocking]
      exact exists_congr fun b => and_congr_left fun _ => hw.mem_blocking b
    · obtain ⟨hacyclic, hall⟩ := hw.complete (hcapped ▸ hcap)
      refine ⟨hacyclic, fun q => ?_⟩
      rw [hblocking]
      exact exists_congr fun b => and_congr_left fun _ => hall b

end Board.Query

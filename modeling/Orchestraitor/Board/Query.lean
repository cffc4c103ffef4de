import Orchestraitor.Base.Ordered
import Orchestraitor.Base.Layers
import Orchestraitor.Base.Loop
import Orchestraitor.Board.Contract

/-!
# The `board.query` tool

A read-only query over a provider: a typed search, and the walk of the `blockedBy` edges from one
item.  A query is a program of provider calls (`QueryM`); `read` is a call followed by `?`, `attempt`
a call whose error the query looks at itself.

The walk is a loop over an explicit stack.  `walkStep` is one round of it, `walk` the loop: the
potential `walkPotential` falls in every round, so `walkFuel` rounds are always enough.

The audit record of an invocation is left out.
-/

namespace Board.Query
open Base List

def maxResultItems : Nat := 500
def maxBlockedDepth : Nat := 64

inductive BoardQueryItemType where
  | task | bug | epic | feature

def BoardQueryItemType.toContract : BoardQueryItemType → BoardItemType
  | .task => .task
  | .bug => .bug
  | .epic => .epic
  | .feature => .feature

inductive BoardQueryFieldValue where
  | singleSelect (option : String)
  | text (value : String)
  | number (value : Nat)
  | date (value : String)

structure BoardQueryField where
  name : String
  value : BoardQueryFieldValue

structure BoardQueryFilter where
  itemType : Option BoardQueryItemType
  status : Option String
  fields : List BoardQueryField

inductive BoardQueryMode where
  | search (filter : BoardQueryFilter)
  | blockedBy (item : String)

structure BoardQueryItem where
  id : String
  itemType : String
  title : String
  status : String
  fields : OrdMap String BoardQueryFieldValue
  blockedBy : List String

structure BoardQueryResult where
  items : List BoardQueryItem
  truncated : Bool

structure BlockedCycle where
  item : String
  path : List String

structure BlockedGraph where
  root : String
  rootExists : Bool
  blocking : List BoardQueryItem
  cycle : Option BlockedCycle
  depthCapped : Bool

inductive BoardQueryResultKind where
  | search (result : BoardQueryResult)
  | blockedBy (graph : BlockedGraph)

structure InvocationSummary where
  itemsMatched : Nat
  truncated : Bool
  cycleDetected : Bool

inductive BoardQueryError where
  | provider (label : String)
  | eventStore (label : String)

def BoardQueryError.ofContract : BoardContractError → BoardQueryError
  | .transport _ | .writeRejected _ => .provider "transport"
  | .itemNotFound _ => .provider "item-not-found"
  | .statusNotFound _ => .provider "status-not-found"
  | .fieldNotFound _ => .provider "field-not-found"
  | .fieldTypeMismatch _ _ _ => .provider "field-type-mismatch"
  | .duplicateEdge _ _ => .provider "duplicate-edge"
  | .crossReferenceNotFound _ _ => .provider "cross-reference-not-found"
  | .invalidItemId => .provider "invalid-item-id"

abbrev QueryM := ExceptT BoardQueryError (Calls BoardCall.Answer)

def read (q : BoardCall) : QueryM q.Reply :=
  ExceptT.mk (.call q fun a => .ret (a.mapError .ofContract))

def attempt (q : BoardCall) : QueryM q.Answer := ExceptT.mk (.call q fun a => .ret (.ok a))

/-! ## filters and projections -/

def contractValue : BoardQueryFieldValue → BoardFieldValue
  | .singleSelect option => .singleSelect option
  | .text value => .text value
  | .number value => .number value
  | .date value => .date value

def toolValue : BoardFieldValue → BoardQueryFieldValue
  | .singleSelect option => .singleSelect option
  | .text value => .text value
  | .number value => .number value
  | .date value => .date value

def contractFilter (filter : BoardQueryFilter) : BoardSearch where
  itemType := filter.itemType.map BoardQueryItemType.toContract
  status := filter.status
  fields := filter.fields.map fun field => (field.name, contractValue field.value)

def groupBlockers (edges : List DependencyEdge) : OrdMap BoardItemId (List BoardItemId) :=
  edges.foldl (fun index e => index.insert e.blocked (index[e.blocked]?.getD [] ++ [e.blocks])) ∅

def directBlockers (edges : List DependencyEdge) : OrdMap BoardItemId (List BoardItemId) :=
  (groupBlockers edges).map fun _ blockers => sortDedup blockers

def blockersOf (index : OrdMap BoardItemId (List BoardItemId)) (id : BoardItemId) :
    List BoardItemId :=
  index[id]?.getD []

def readField (id : BoardItemId) (fields : OrdMap String BoardQueryFieldValue)
    (field : BoardField) : QueryM (OrdMap String BoardQueryFieldValue) := do
  let value ← read (.fieldValue id field.name)
  return match value with
    | some value => fields.insert field.name (toolValue value)
    | none => fields

def projectItem (index : OrdMap BoardItemId (List BoardItemId)) (catalog : List BoardField)
    (item : BoardItem) : QueryM BoardQueryItem := do
  let fields ← catalog.foldlM (readField item.id) ∅
  return {
    id := item.id, itemType := item.itemType.asStr, title := item.title, status := item.status,
    fields, blockedBy := blockersOf index item.id }

/-! ## the walk -/

/-- a stack frame: a node to visit at a path depth, or the unwind marker of a node.  The source
marks the latter with the depth `usize::MAX`, which no path reaches. -/
inductive Frame where
  | visit (item : BoardItemId) (depth : Nat)
  | exit (item : BoardItemId)

structure WalkState where
  seen : OrdMap BoardItemId Nat
  path : List BoardItemId
  blocking : List BoardItemId
  cycle : Option BlockedCycle
  depthCapped : Bool
  stack : List Frame

def pushAll (items : List BoardItemId) (depth : Nat) (stack : List Frame) : List Frame :=
  items.reverse.map (.visit · depth) ++ stack

def walkInit (index : OrdMap BoardItemId (List BoardItemId)) (root : BoardItemId) : WalkState where
  seen := (∅ : OrdMap BoardItemId Nat).insert root 0
  path := [root]
  blocking := []
  cycle := none
  depthCapped := false
  stack := pushAll (blockersOf index root) 1 []

def expand (index : OrdMap BoardItemId (List BoardItemId)) (s : WalkState) (item : BoardItemId)
    (depth : Nat) : WalkState :=
  { s with
    seen := s.seen.insert item depth
    path := s.path ++ [item]
    blocking := s.blocking ++ [item]
    stack := pushAll (blockersOf index item) (depth + 1) (.exit item :: s.stack) }

/-- one round of the loop; `.inr` is its end or the `break` at a cycle -/
def walkStep (index : OrdMap BoardItemId (List BoardItemId)) (s : WalkState) :
    WalkState ⊕ WalkState :=
  match s.stack with
  | [] => .inr s
  | .exit _ :: stack => .inl { s with stack, path := s.path.dropLast }
  | .visit item depth :: stack =>
    let s := { s with stack }
    if s.seen[item]?.any (· ≤ depth) then
      if s.path.contains item then .inr { s with cycle := some { item, path := s.path } }
      else .inl s
    else if depth > maxBlockedDepth then .inl { s with depthCapped := true }
    else .inl (expand index s item depth)

/-- what a round that goes on does -/
inductive Round (index : OrdMap BoardItemId (List BoardItemId)) (s : WalkState) : WalkState → Prop
  | exit {x stack} (h : s.stack = .exit x :: stack) :
      Round index s { s with stack, path := s.path.dropLast }
  | revisit {item depth stack} (h : s.stack = .visit item depth :: stack) {d : Nat}
      (hd : s.seen[item]? = some d) (hle : d ≤ depth) (hpath : item ∉ s.path) :
      Round index s { s with stack }
  | cap {item depth stack} (h : s.stack = .visit item depth :: stack)
      (hd : ∀ d, s.seen[item]? = some d → depth < d) (hcap : maxBlockedDepth < depth) :
      Round index s { s with stack, depthCapped := true }
  | expand {item depth stack} (h : s.stack = .visit item depth :: stack)
      (hd : ∀ d, s.seen[item]? = some d → depth < d) (hcap : depth ≤ maxBlockedDepth) :
      Round index s (expand index { s with stack } item depth)

theorem any_le_iff {o : Option Nat} {n : Nat} : o.any (· ≤ n) = true ↔ ∃ d, o = some d ∧ d ≤ n := by
  cases o <;> simp

variable {index : OrdMap BoardItemId (List BoardItemId)} {s s' : WalkState}
  {edges : List DependencyEdge} {depth : Nat}

theorem walkStep_inl (h : walkStep index s = .inl s') : Round index s s' := by
  unfold walkStep at h
  cases hs : s.stack with
  | nil => simp [hs] at h
  | cons frame =>
    rw [hs] at h
    cases frame with
    | exit =>
      obtain rfl := Sum.inl.inj h
      exact .exit hs
    | visit item depth =>
      dsimp only at h
      by_cases hseen : s.seen[item]?.any (· ≤ depth) = true
      · rw [if_pos hseen] at h
        obtain ⟨d, hd, hle⟩ := any_le_iff.mp hseen
        by_cases hp : s.path.contains item = true
        · rw [if_pos hp] at h
          exact absurd h (by simp)
        · rw [if_neg hp] at h
          obtain rfl := Sum.inl.inj h
          exact .revisit hs hd hle (by simpa using hp)
      · have hd : ∀ d, s.seen[item]? = some d → depth < d := by
          intro d hd
          by_contra hlt
          exact hseen (any_le_iff.mpr ⟨d, hd, by omega⟩)
        rw [if_neg hseen] at h
        by_cases hcap : depth > maxBlockedDepth
        · rw [if_pos hcap] at h
          obtain rfl := Sum.inl.inj h
          exact .cap hs hd hcap
        · rw [if_neg hcap] at h
          obtain rfl := Sum.inl.inj h
          exact .expand hs hd (by omega)

theorem walkStep_inr {r : WalkState} (h : walkStep index s = .inr r) : (s.stack = [] ∧ r = s) ∨
      ∃ item depth stack, s.stack = .visit item depth :: stack ∧ item ∈ s.path ∧
        r = { s with stack, cycle := some { item, path := s.path } } := by
  unfold walkStep at h
  cases hs : s.stack with
  | nil =>
    simp only [hs] at h
    exact Or.inl ⟨rfl, (Sum.inr.inj h).symm⟩
  | cons frame stack =>
    rw [hs] at h
    cases frame with
    | exit => simp at h
    | visit item depth =>
      dsimp only at h
      split_ifs at h with h1 h2
      exact Or.inr ⟨item, depth, stack, rfl, by simpa using h2, (Sum.inr.inj h).symm⟩

/-! ## the walk ends -/

theorem getD_groupBlockers (edges : List DependencyEdge) (x : BoardItemId) :
    (groupBlockers edges)[x]?.getD [] = (edges.filter (fun e => e.blocked = x)).map (·.blocks) := by
  -- the accumulator of the fold in front of what the rest of the list adds
  have key : ∀ index : OrdMap BoardItemId (List BoardItemId),
      (edges.foldl (fun index e =>
        index.insert e.blocked (index[e.blocked]?.getD [] ++ [e.blocks])) index)[x]?.getD [] =
      index[x]?.getD [] ++ (edges.filter (fun e => e.blocked = x)).map (·.blocks) := by
    induction edges with
    | nil => intro index; simp
    | cons e _ ih =>
      intro _
      rw [foldl_cons, ih]
      by_cases hx : x = e.blocked
      · subst hx
        simp
      · have hx' : ¬ e.blocked = x := fun h => hx h.symm
        simp [hx, hx']
  simpa [groupBlockers] using key ∅

theorem blockersOf_directBlockers (edges : List DependencyEdge) (x : BoardItemId) :
    blockersOf (directBlockers edges) x =
      sortDedup ((edges.filter (fun e => e.blocked = x)).map (·.blocks)) := by
  rw [← getD_groupBlockers, blockersOf, directBlockers, Std.ExtTreeMap.getElem?_map]
  cases (groupBlockers edges)[x]? <;> rfl

theorem mem_blockersOf {x y : BoardItemId} :
    y ∈ blockersOf (directBlockers edges) x ↔ { blocked := x, blocks := y } ∈ edges := by
  rw [blockersOf_directBlockers, mem_sortDedup, mem_map]
  constructor
  · rintro ⟨e, he, rfl⟩
    obtain ⟨hmem, hx⟩ := mem_filter.mp he
    obtain rfl : e.blocked = x := by simpa using hx
    exact hmem
  · intro h
    exact ⟨_, mem_filter.mpr ⟨h, by simp⟩, rfl⟩

theorem length_blockersOf_le (edges : List DependencyEdge) (x : BoardItemId) :
    (blockersOf (directBlockers edges) x).length ≤ edges.length := by
  rw [blockersOf_directBlockers]
  refine (length_sortDedup_le _).trans ?_
  rw [length_map]
  exact length_filter_le _ _

def WalkState.depthOf (s : WalkState) (id : BoardItemId) : Nat := s.seen[id]?.getD (maxBlockedDepth + 1)

/-- An expansion lowers a recorded depth and pushes at most one frame for each edge and a marker;
every other round pops a frame. -/
def walkPotential (edges : List DependencyEdge) (s : WalkState) : Nat :=
  (edges.map fun e => s.depthOf e.blocks).sum * (edges.length + 2) + s.stack.length

/-- only blockers are on the stack -/
def Tracked (edges : List DependencyEdge) (s : WalkState) : Prop :=
  ∀ item depth, .visit item depth ∈ s.stack → ∃ e ∈ edges, e.blocks = item

theorem mem_pushAll {items : List BoardItemId} {stack : List Frame} {f : Frame} :
    f ∈ pushAll items depth stack ↔ (∃ y ∈ items, f = .visit y depth) ∨ f ∈ stack := by
  simp [pushAll, eq_comm]

theorem length_pushAll (items : List BoardItemId) (depth : Nat) (stack : List Frame) :
    (pushAll items depth stack).length = items.length + stack.length := by
  simp [pushAll]

theorem Tracked.pushAll {x : BoardItemId} (stack : List Frame)
    (h : ∀ item d, .visit item d ∈ stack → ∃ e ∈ edges, e.blocks = item)
    (hs : s.stack = Query.pushAll (blockersOf (directBlockers edges) x) depth stack) :
    Tracked edges s := by
  intro item d hm
  rw [hs, mem_pushAll] at hm
  rcases hm with ⟨y, hy, he⟩ | hm
  · obtain ⟨rfl, rfl⟩ := Frame.visit.inj he
    exact ⟨_, mem_blockersOf.mp hy, rfl⟩
  · exact h item d hm

theorem Round.tracked (h : Round (directBlockers edges) s s') (ht : Tracked edges s) :
    Tracked edges s' := by
  have tail : ∀ f stack, s.stack = f :: stack →
      ∀ item d, .visit item d ∈ stack → ∃ e ∈ edges, e.blocks = item := by
    intro f _ hs item d hm
    exact ht item d (hs ▸ mem_cons_of_mem f hm)
  cases h with
  | exit h => exact tail _ _ h
  | revisit h => exact tail _ _ h
  | cap h => exact tail _ _ h
  | @expand item depth stack h =>
    apply Tracked.pushAll (.exit item :: stack) _ rfl
    intro y d hm
    rcases mem_cons.mp hm with hm | hm
    · exact absurd hm (by simp)
    · exact tail _ _ h y d hm

theorem depthOf_expand {item : BoardItemId} (y : BoardItemId) :
    (expand index s item depth).depthOf y = if y = item then depth else s.depthOf y := by
  simp only [WalkState.depthOf, expand, OrdMap.get_insert]
  split_ifs <;> rfl

theorem Round.potential (h : Round (directBlockers edges) s s') (ht : Tracked edges s) :
    walkPotential edges s' < walkPotential edges s := by
  -- a pop keeps the recorded depths
  have pop : ∀ f stack, s.stack = f :: stack → ∀ t : WalkState, t.seen = s.seen →
      t.stack = stack → walkPotential edges t < walkPotential edges s := by
    intro _ _ hs _ hseen hstack
    simp only [walkPotential, WalkState.depthOf, hseen, hstack, hs, length_cons]
    omega
  cases h with
  | exit h => exact pop _ _ h _ rfl rfl
  | revisit h => exact pop _ _ h _ rfl rfl
  | cap h => exact pop _ _ h _ rfl rfl
  | @expand item depth stack h hd hcap =>
    obtain ⟨e, he, hitem⟩ := ht item depth (h ▸ mem_cons_self)
    have hlt : depth < s.depthOf item := by
      rw [WalkState.depthOf]
      cases hseen : s.seen[item]? with
      | none =>
        show depth < maxBlockedDepth + 1
        omega
      | some d => exact hd d hseen
    have hsum : (edges.map fun e => (Query.expand (directBlockers edges) { s with stack } item
        depth).depthOf e.blocks).sum < (edges.map fun e => s.depthOf e.blocks).sum := by
      apply sum_lt_sum
      · intro _ _
        rw [depthOf_expand]
        split_ifs with hy
        · rw [hy]
          exact hlt.le
        · exact le_refl _
      · refine ⟨e, he, ?_⟩
        rw [depthOf_expand, if_pos hitem, hitem]
        exact hlt
    have hpush : (Query.expand (directBlockers edges) { s with stack } item depth).stack.length ≤
        edges.length + (stack.length + 1) := by
      have := length_blockersOf_le edges item
      rw [Query.expand, length_pushAll, length_cons]
      dsimp only
      omega
    have hmul := Nat.mul_le_mul_right (edges.length + 2) hsum
    rw [Nat.succ_mul] at hmul
    simp only [walkPotential, h, length_cons]
    omega

def walkFuel (edges : List DependencyEdge) : Nat :=
  edges.length * (maxBlockedDepth + 1) * (edges.length + 2) + edges.length + 1

theorem tracked_walkInit (edges : List DependencyEdge) (root : BoardItemId) :
    Tracked edges (walkInit (directBlockers edges) root) :=
  Tracked.pushAll [] (fun _ _ h => absurd h (by simp)) rfl

theorem potential_walkInit (edges : List DependencyEdge) (root : BoardItemId) :
    walkPotential edges (walkInit (directBlockers edges) root) < walkFuel edges := by
  have hdepth : ∀ y, (walkInit (directBlockers edges) root).depthOf y ≤ maxBlockedDepth + 1 := by
    intro y
    simp only [WalkState.depthOf, walkInit, OrdMap.get_insert]
    split_ifs <;> simp
  have hsum : (edges.map fun e => (walkInit (directBlockers edges) root).depthOf e.blocks).sum ≤
      edges.length * (maxBlockedDepth + 1) := by
    have := sum_le_card_nsmul (edges.map fun e =>
      (walkInit (directBlockers edges) root).depthOf e.blocks) (maxBlockedDepth + 1) (by
        intro n hn
        obtain ⟨e, _, rfl⟩ := mem_map.mp hn
        exact hdepth _)
    simpa using this
  have hstack : (walkInit (directBlockers edges) root).stack.length ≤ edges.length := by
    rw [walkInit, length_pushAll]
    exact length_blockersOf_le edges root
  have hmul := Nat.mul_le_mul_right (edges.length + 2) hsum
  simp only [walkPotential, walkFuel]
  omega

theorem walk_isSome (edges : List DependencyEdge) (root : BoardItemId) :
    (loop (walkStep (directBlockers edges)) (walkFuel edges)
      (walkInit (directBlockers edges) root)).isSome = true := by
  apply loop_isSome _ (tracked_walkInit edges root)
    (potential_walkInit edges root)
  intro _ _ hs h
  have hr := walkStep_inl h
  exact ⟨hr.tracked hs, hr.potential hs⟩

def walk (edges : List DependencyEdge) (root : BoardItemId) : WalkState :=
  (loop (walkStep (directBlockers edges)) (walkFuel edges)
    (walkInit (directBlockers edges) root)).get (walk_isSome edges root)

/-! ## the query -/

def fetchBlocking (index : OrdMap BoardItemId (List BoardItemId)) (catalog : List BoardField) :
    List BoardItemId → QueryM (List BoardQueryItem)
  | [] => return []
  | id :: ids => do
    match ← attempt (.item id) with
    | .ok item =>
      let projected ← projectItem index catalog item
      let rest ← fetchBlocking index catalog ids
      return projected :: rest
    | .error _ => fetchBlocking index catalog ids

def walkBlocked (root : BoardItemId) (rootExists : Bool) (edges : List DependencyEdge) :
    QueryM BlockedGraph := do
  let index := directBlockers edges
  let catalog ← read .fields
  let s := walk edges root
  let blocking ← fetchBlocking index catalog (sortDedup s.blocking)
  return {
    root, rootExists, blocking := sortByKey (·.id) blocking, cycle := s.cycle,
    depthCapped := s.depthCapped }

def projectItems (index : OrdMap BoardItemId (List BoardItemId)) (catalog : List BoardField)
    (items : List BoardItem) : QueryM (List BoardQueryItem) :=
  items.mapM (projectItem index catalog)

def liftContract {α : Type} (x : Except BoardContractError α) : QueryM α :=
  match x with
  | .ok a => return a
  | .error e => throw (.ofContract e)

def lookupRoot (root : BoardItemId) : QueryM Bool := do
  match ← attempt (.item root) with
  | .ok _ => return true
  | .error (.itemNotFound _) => return false
  | .error e => throw (.ofContract e)

def execute : BoardQueryMode → QueryM (BoardQueryResultKind × InvocationSummary)
  | .search filter => do
    let found ← read (.search (contractFilter filter))
    -- sorted before the cap, so that the cap keeps a determined subset
    let sorted := sortByKey (fun item : BoardItem => item.id) found
    let truncated := decide (sorted.length > maxResultItems)
    let kept := sorted.take maxResultItems
    let edges ← read .dependencyEdges
    let summary := { itemsMatched := kept.length, truncated, cycleDetected := false }
    let catalog ← read .fields
    let items ← projectItems (directBlockers edges) catalog kept
    return (.search { items, truncated }, summary)
  | .blockedBy item => do
    let root ← liftContract (BoardItemId.new item)
    let rootExists ← lookupRoot root
    let edges ← read .dependencyEdges
    let graph ← walkBlocked root rootExists edges
    return (.blockedBy graph, {
      itemsMatched := graph.blocking.length, truncated := false,
      cycleDetected := graph.cycle.isSome })

end Board.Query

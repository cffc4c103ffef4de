import Orchestraitor.Base.Ordered
import Orchestraitor.Board.Contract

/-!
# The in-memory reference provider

The conformance target of the contract: every call answers from one table behind one lock.  The
poisoning of that lock is left out.
-/

namespace Board
open Base

/-- `next_id` is a `u64` that each created item adds one to: it would wrap after 2^64 items, which no table
holds -/
structure BoardState where
  items : OrdMap BoardItemId BoardItem
  statuses : List BoardStatus
  fields : List BoardField
  fieldValues : OrdMap (BoardItemId × String) BoardFieldValue
  edges : OrdSet (BoardItemId × BoardItemId)
  crossReferences : OrdMap BoardItemId (List CrossReference)
  nextId : Nat

namespace BoardState

variable (s : BoardState)

def knowsItem (id : BoardItemId) : Bool := s.items.contains id

def setItemStatus (id : BoardItemId) (status : String) :
    Except BoardContractError Unit × BoardState :=
  match s.items[id]? with
  | none => (.error (.itemNotFound id), s)
  | some item =>
    if !s.statuses.any (fun known => known.name = status) then (.error (.statusNotFound status), s)
    else (.ok (), { s with items := s.items.insert id { item with status } })

theorem setItemStatus_cases (id : BoardItemId) (status : String) :
    (s.setItemStatus id status).2 = s ∨ ∃ item : BoardItem,
      (s.setItemStatus id status).2 = { s with items := s.items.insert id { item with status } } := by
  unfold setItemStatus
  cases s.items[id]? with
  | none => exact Or.inl rfl
  | some item =>
    split_ifs
    · exact Or.inl rfl
    · exact Or.inr ⟨item, rfl⟩

def setFieldValue (id : BoardItemId) (field : String) (value : BoardFieldValue) :
    Except BoardContractError Unit × BoardState :=
  if !s.knowsItem id then (.error (.itemNotFound id), s)
  else match s.fields.find? (fun known => known.name = field) with
    | none => (.error (.fieldNotFound field), s)
    | some known =>
      if known.kind ≠ value.kind then
        (.error (.fieldTypeMismatch field known.kind.name value.kind.name), s)
      else (.ok (), { s with fieldValues := s.fieldValues.insert (id, field) value })

def meets (filter : BoardSearch) (item : BoardItem) : Bool :=
  filter.itemType.all (· = item.itemType) && filter.status.all (· = item.status) &&
    filter.fields.all (fun (name, value) => s.fieldValues[(item.id, name)]? = some value)

def unknownEndpoint (blocked blocks : BoardItemId) : Option BoardItemId :=
  [blocked, blocks].find? (fun id => !s.knowsItem id)

end BoardState

def inMemory : Provider BoardState
  | s, .item id => (s.items[id]?.elim (.error (.itemNotFound id)) .ok, s)
  | s, .items => (.ok s.items.values, s)
  | s, .createItem itemType title body =>
    let nextId := s.nextId + 1
    let id := s!"item-{nextId}"
    let item : BoardItem := { id, itemType, title, body, status := "" }
    (.ok id, { s with nextId, items := s.items.insert id item })
  | s, .updateItemBody id title body =>
    match s.items[id]? with
    | none => (.error (.itemNotFound id), s)
    | some item => (.ok (), { s with items := s.items.insert id { item with title, body } })
  | s, .statuses => (.ok s.statuses, s)
  | s, .setItemStatus id status => s.setItemStatus id status
  | s, .fields => (.ok s.fields, s)
  | s, .fieldValue id field =>
    if !s.knowsItem id then (.error (.itemNotFound id), s)
    else if !s.fields.any (fun known => known.name = field) then (.error (.fieldNotFound field), s)
    else (.ok s.fieldValues[(id, field)]?, s)
  | s, .setFieldValue id field value => s.setFieldValue id field value
  | s, .dependencyEdges => (.ok (s.edges.toList.map fun e => { blocked := e.1, blocks := e.2 }), s)
  | s, .addDependencyEdge blocked blocks =>
    match s.unknownEndpoint blocked blocks with
    | some id => (.error (.itemNotFound id), s)
    | none =>
      if s.edges.contains (blocked, blocks) then (.error (.duplicateEdge blocked blocks), s)
      else (.ok (), { s with edges := s.edges.insert (blocked, blocks) })
  | s, .removeDependencyEdge blocked blocks =>
    match s.unknownEndpoint blocked blocks with
    | some id => (.error (.itemNotFound id), s)
    | none => (.ok (), { s with edges := s.edges.erase (blocked, blocks) })
  | s, .crossReferences id =>
    if !s.knowsItem id then (.error (.itemNotFound id), s)
    else (.ok (s.crossReferences[id]?.getD []), s)
  | s, .addCrossReference source target =>
    if !s.knowsItem source then (.error (.itemNotFound source), s)
    else
      let references := s.crossReferences[source]?.getD []
      let references :=
        if references.any (fun reference => reference.target = target) then references
        else references ++ [{ source, target }]
      (.ok (), { s with crossReferences := s.crossReferences.insert source references })
  | s, .search filter => (.ok (s.items.values.filter (s.meets filter)), s)

/-! ## the initial catalog -/

inductive SetupCall where
  | status (name : String)
  | field (name : String) (kind : BoardFieldKind)
  | item (id : String) (itemType : BoardItemType) (title body status : String)
      (fields : List (String × BoardFieldValue))
  | edge (blocked blocks : String)

def BoardState.setUp (s : BoardState) : SetupCall → BoardState
  | .status name => { s with statuses := s.statuses ++ [⟨s!"status-{s.statuses.length}", name⟩] }
  | .field name kind => { s with fields := s.fields ++ [⟨s!"field-{s.fields.length}", name, kind⟩] }
  | .item id itemType title body status fields =>
    { s with
      items := s.items.insert id { id, itemType, title, body, status }
      fieldValues := fields.foldl (fun values e => values.insert (id, e.1) e.2) s.fieldValues }
  | .edge blocked blocks =>
    match BoardItemId.new blocked, BoardItemId.new blocks with
    | .ok blocked, .ok blocks => { s with edges := s.edges.insert (blocked, blocks) }
    | _, _ => s

def setup (catalog : List SetupCall) : BoardState :=
  catalog.foldl BoardState.setUp
    { items := ∅, statuses := [], fields := [], fieldValues := ∅, edges := ∅, crossReferences := ∅,
      nextId := 0 }

theorem setup_nextId (catalog : List SetupCall) : (setup catalog).nextId = 0 := by
  refine List.foldlRecOn (motive := fun s : BoardState => s.nextId = 0) catalog _ rfl fun s hs q _ => ?_
  cases q with
  | edge =>
    rw [BoardState.setUp]
    split <;> exact hs
  | status | field | item => exact hs

/-! ## created items -/

namespace BoardState

variable (s : BoardState)

def after (calls : List BoardCall) : BoardState := calls.foldl (fun s q => (inMemory s q).2) s

def Creates (itemType : BoardItemType) (title body : String) : Prop :=
  let r := inMemory s (.createItem itemType title body)
  ∃ id, r.1 = .ok id ∧ id ∉ s.items ∧ (∀ id' ∈ s.items, r.2.items[id']? = s.items[id']?) ∧
    { r.2 with items := s.items, nextId := s.nextId } = s

theorem inMemory_ids (q : BoardCall) :
    ((inMemory s q).2.nextId = s.nextId ∧ ∀ id, id ∈ (inMemory s q).2.items ↔ id ∈ s.items) ∨
      (inMemory s q).2.nextId = s.nextId + 1 ∧
        ∀ id, id ∈ (inMemory s q).2.items ↔ id = s!"item-{s.nextId + 1}" ∨ id ∈ s.items := by
  have hput : ∀ {id item item'}, s.items[id]? = some item →
      ∀ id', id' ∈ s.items.insert id item' ↔ id' ∈ s.items := by
    intro _ item _ hitem _
    rw [OrdMap.mem_insert_iff, or_iff_right_of_imp]
    rintro rfl
    exact (OrdMap.mem_iff_get _ _).mpr ⟨item, hitem⟩
  cases q with
  | createItem => exact Or.inr ⟨rfl, fun _ => OrdMap.mem_insert_iff ..⟩
  | _ =>
    refine Or.inl ?_
    rw [inMemory]
    try unfold setItemStatus
    try unfold setFieldValue
    repeat' split
    all_goals first | exact ⟨rfl, fun _ => Iff.rfl⟩ | exact ⟨rfl, hput ‹_›⟩

/-- every id of `s` is there from the start, or one of the first `nextId` numbers -/
def Issued (s₀ s : BoardState) : Prop :=
  ∀ id ∈ s.items, id ∈ s₀.items ∨ ∃ n < s.nextId, id = s!"item-{n + 1}"

theorem issued_after {s₀ : BoardState} (calls : List BoardCall) : Issued s₀ (s₀.after calls) := by
  refine List.foldlRecOn calls _ (motive := Issued s₀) (fun id hid => Or.inl hid) fun s hs q _ id hid => ?_
  obtain ⟨hnext, hids⟩ | ⟨hnext, hids⟩ := inMemory_ids s q
  · rw [hnext]
    exact hs id ((hids id).mp hid)
  · rw [hnext]
    obtain rfl | hold := (hids id).mp hid
    · exact Or.inr ⟨s.nextId, Nat.lt_succ_self _, rfl⟩
    · exact (hs id hold).imp_right fun ⟨n, hn, hid⟩ => ⟨n, Nat.lt_succ_of_lt hn, hid⟩

theorem mem_after (n : Nat) {id : BoardItemId} (h : id ∈ s.items) :
    (s.after (List.replicate n (.createItem .task "" ""))).nextId = s.nextId + n ∧
      id ∈ (s.after (List.replicate n (.createItem .task "" ""))).items := by
  induction n generalizing s with
  | zero => exact ⟨rfl, h⟩
  | succ n ih =>
    have hstep := ih (inMemory s (.createItem .task "" "")).2 ((OrdMap.mem_insert_iff ..).mpr (Or.inr h))
    exact ⟨hstep.1.trans (Nat.add_right_comm ..), hstep.2⟩

end BoardState

open BoardState

/-- every item is created with a new id exactly when the catalog has none of the ids `item-<n>` -/
theorem create_fresh_iff (catalog : List SetupCall) :
    (∀ calls itemType title body, ((setup catalog).after calls).Creates itemType title body) ↔
      ∀ n : Nat, s!"item-{n + 1}" ∉ (setup catalog).items := by
  constructor
  · intro h n hmem
    obtain ⟨hnext, hstill⟩ := (setup catalog).mem_after n hmem
    obtain ⟨id, hid, hfresh, -⟩ := h (List.replicate n (.createItem .task "" "")) .task "" ""
    obtain rfl := Except.ok.inj hid
    rw [setup_nextId, Nat.zero_add] at hnext
    rw [hnext] at hfresh
    exact hfresh hstill
  · intro h calls _ _ _
    have hfresh : s!"item-{((setup catalog).after calls).nextId + 1}" ∉ ((setup catalog).after calls).items := by
      intro hmem
      obtain hold | ⟨n, hn, heq⟩ := issued_after calls _ hmem
      · exact h _ hold
      · have hsame := Nat.repr_inj.mp ((String.append_right_inj _).mp heq)
        omega
    refine ⟨_, rfl, hfresh, fun id hid => ?_, rfl⟩
    refine (OrdMap.get_insert ..).trans (if_neg ?_)
    rintro rfl
    exact hfresh hid

/-- the first created item replaces the one that the catalog calls `item-1` -/
theorem create_replaces :
    let s := setup [.item "item-1" .bug "from the catalog" "its body" "Todo" []]
    ((inMemory s (.createItem .task "created" "")).2.items["item-1"]?.map (·.title)) = some "created" ∧
      ¬ s.Creates .task "created" "" := by
  refine ⟨by decide +kernel, ?_⟩
  rintro ⟨id, hid, hfresh, -⟩
  obtain rfl := Except.ok.inj hid
  exact hfresh (by decide +kernel)

end Board

import Orchestraitor.Base.Prim
import Orchestraitor.Base.Calls

/-!
# The board contract

The data types of the contract, its errors, and the `BoardProvider` trait as a set of calls with
their answers.  A provider is an environment of these calls: it answers from a state of its own,
so that it may fail in any pattern and be edited from outside between two calls.

Titles, bodies, names and ids are text.  `BoardItemId` is a newtype over the text; only
`BoardItemId.new` looks at it.
-/

namespace Board
open Base

abbrev BoardItemId := String

inductive BoardItemType where
  | task | bug | epic | feature
  deriving DecidableEq

def BoardItemType.asStr : BoardItemType → String
  | .task => "task"
  | .bug => "bug"
  | .epic => "epic"
  | .feature => "feature"

structure BoardItem where
  id : BoardItemId
  itemType : BoardItemType
  title : String
  body : String
  status : String

structure BoardStatus where
  id : BoardItemId
  name : String

inductive BoardFieldKind where
  | singleSelect | text | number | date
  deriving DecidableEq

def BoardFieldKind.name : BoardFieldKind → String
  | .singleSelect => "single-select"
  | .text => "text"
  | .number => "number"
  | .date => "date"

structure BoardField where
  id : BoardItemId
  name : String
  kind : BoardFieldKind

inductive BoardFieldValue where
  | singleSelect (option : String)
  | text (value : String)
  | number (value : Nat)
  | date (value : String)
  deriving DecidableEq

def BoardFieldValue.kind : BoardFieldValue → BoardFieldKind
  | .singleSelect _ => .singleSelect
  | .text _ => .text
  | .number _ => .number
  | .date _ => .date

structure DependencyEdge where
  blocked : BoardItemId
  blocks : BoardItemId

structure CrossReference where
  source : BoardItemId
  target : String

/-- a conjunctive filter: an item matches when every criterion that is set matches -/
structure BoardSearch where
  itemType : Option BoardItemType
  status : Option String
  fields : List (String × BoardFieldValue)

inductive BoardContractError where
  | invalidItemId
  | itemNotFound (id : String)
  | statusNotFound (name : String)
  | fieldNotFound (name : String)
  | fieldTypeMismatch (field expected actual : String)
  | duplicateEdge (blocked blocks : String)
  | crossReferenceNotFound (source target : String)
  | writeRejected (operation : String)
  | transport (operation : String)

def BoardItemId.new (raw : String) : Except BoardContractError BoardItemId :=
  if isBlank raw then .error .invalidItemId else .ok raw

/-! ## the provider trait -/

inductive BoardCall where
  | item (id : BoardItemId)
  | items
  | createItem (itemType : BoardItemType) (title body : String)
  | updateItemBody (id : BoardItemId) (title body : String)
  | statuses
  | setItemStatus (id : BoardItemId) (status : String)
  | fields
  | fieldValue (id : BoardItemId) (field : String)
  | setFieldValue (id : BoardItemId) (field : String) (value : BoardFieldValue)
  | dependencyEdges
  | addDependencyEdge (blocked blocks : BoardItemId)
  | removeDependencyEdge (blocked blocks : BoardItemId)
  | crossReferences (id : BoardItemId)
  | addCrossReference (source : BoardItemId) (target : String)
  | search (filter : BoardSearch)

@[reducible] def BoardCall.Reply : BoardCall → Type
  | .item _ => BoardItem
  | .items | .search _ => List BoardItem
  | .createItem _ _ _ => BoardItemId
  | .statuses => List BoardStatus
  | .fields => List BoardField
  | .fieldValue _ _ => Option BoardFieldValue
  | .dependencyEdges => List DependencyEdge
  | .crossReferences _ => List CrossReference
  | .updateItemBody _ _ _ | .setItemStatus _ _ | .setFieldValue _ _ _ | .addDependencyEdge _ _
  | .removeDependencyEdge _ _ | .addCrossReference _ _ => Unit

abbrev BoardCall.Answer (q : BoardCall) : Type := Except BoardContractError q.Reply

/-- a provider with the state `σ`; each call is one atomic step -/
abbrev Provider (σ : Type) := σ → (q : BoardCall) → q.Answer × σ

end Board

import Mathlib

/-!
# The pass: order, select, record

A pass reads a board snapshot and turns it into exactly one decision record: the selected task, or a
typed no-op.  `campaignDecision` is the record without the consultation of a decision provider, whose
answer it takes; the confidence in that answer comes with two decimals as text.
-/

namespace Campaign

/-! ## the board -/

structure ItemFacts where
  repo : String
  number : Nat
  openBlockers : Nat
  target : Option String
  status : Option String
  priority : Option String

structure ReadyItem where
  number : Nat
  title : String
  url : String
  repo : String
  itemId : String

inductive WarningKind where
  | notOpen | malformed | truncated
  deriving DecidableEq

structure SkipWarning where
  number : Option Nat
  reason : String
  kind : WarningKind

structure BoardSnapshot where
  openItems : List ItemFacts
  ready : List ReadyItem
  blockedCandidates : List ReadyItem
  warnings : List SkipWarning

/-! ## decision records -/

structure SkipRecord where
  number : Option Nat
  kind : String
  reason : String

structure BlockedNode where
  repo : String
  number : Nat
  title : String
  openBlockers : Nat
  target : Option String
  status : Option String

structure SelectedTask where
  repo : String
  number : Nat
  title : String
  url : String
  itemNodeId : String
  taskId : String

inductive NoOpReason where
  | emptyQueue | allBlocked | epicExhausted | kickoffGate

inductive DecisionKind where
  | selected | noOp

structure CampaignDecision where
  kind : DecisionKind
  noOpReason : Option NoOpReason
  selected : Option SelectedTask
  role : String
  provider : String
  model : String
  precedencePath : String
  fallbackReason : Option String
  workerArgs : List String
  rationale : String
  alternatives : List BlockedNode
  blockedGraph : List BlockedNode
  skipped : List SkipRecord

structure RoleRoutingDecision where
  role : String
  provider : String
  model : String
  precedencePath : String
  fallbackReason : Option String

structure SelectorDecision where
  taskId : String
  confidence : Option String

inductive TaskSkipReason where
  | attemptBudget | backoff

def TaskSkipReason.display : TaskSkipReason → String
  | .attemptBudget => "attempt-budget"
  | .backoff => "backoff"

/-! ## task ids -/

def taskIdMaxLen : Nat := 64

/-- 32-bit FNV-1a over the UTF-8 bytes -/
def fnv1a (value : String) : Nat :=
  (value.toList.flatMap String.utf8EncodeChar).foldl
    (fun hash byte => (hash ^^^ byte.toNat) * 0x01000193 % 2 ^ 32) 0x811c9dc5

def hex8 (n : Nat) : String :=
  let digits := Nat.toDigits 16 n
  String.ofList (List.replicate (8 - digits.length) '0' ++ digits)

def isSlugChar (c : Char) : Bool := c.isAlphanum || c == '-'

def charsetClean (part : List Char) : Bool := !part.isEmpty && part.all isSlugChar

def ownerName (repo : String) (budget : Nat) : Option String :=
  match repo.toList.span (· ≠ '/') with
  | (owner, _ :: name) =>
    if charsetClean owner && charsetClean name then
      let joined := repo.toList.map fun c => if c == '/' then '_' else c
      if joined.length ≤ budget then some (String.ofList joined) else none
    else none
  | (_, []) => none

def taskIdFor (repo : String) (number : Nat) : String :=
  let budget := taskIdMaxLen - s!"board--{number}".utf8ByteSize
  match ownerName repo budget with
  | some joined => s!"board-{joined}-{number}"
  | none =>
    let slug := repo.toList.map fun c => if isSlugChar c then c else '-'
    let digest := hex8 (fnv1a repo)
    let truncated := String.ofList (slug.take (budget - 9))
    s!"board-{truncated}-{digest}-{number}"

def ReadyItem.taskId (item : ReadyItem) : String := taskIdFor item.repo item.number

/-! ## selection -/

def factsFor (openItems : List ItemFacts) (repo : String) (number : Nat) : Option ItemFacts :=
  openItems.find? fun facts => facts.repo == repo && facts.number == number

def isP0 (priority : String) : Bool := priority.toList.map Char.toLower == "p0".toList

def selectionKey (openItems : List ItemFacts) (item : ReadyItem) : Nat × String × Nat :=
  let p0 := (factsFor openItems item.repo item.number).any fun facts => facts.priority.any isP0
  (if p0 then 0 else 1, item.repo, item.number)

def keyLe (a b : Nat × String × Nat) : Bool :=
  a.1 < b.1 || (a.1 == b.1 && (a.2.1 < b.2.1 || (a.2.1 == b.2.1 && a.2.2 ≤ b.2.2)))

def computeSelection (ready : List ReadyItem) (openItems : List ItemFacts) : List ReadyItem :=
  ready.insertionSort fun a b => keyLe (selectionKey openItems a) (selectionKey openItems b)

theorem mem_computeSelection {ready : List ReadyItem} {openItems : List ItemFacts}
    {item : ReadyItem} : item ∈ computeSelection ready openItems ↔ item ∈ ready :=
  List.mem_insertionSort _

def workerArgs (taskId : String) : List String := ["worker", "run", "--task", taskId, "--json"]

def blockedNode (openItems : List ItemFacts) (item : ReadyItem) : BlockedNode :=
  let facts := factsFor openItems item.repo item.number
  { repo := item.repo
    number := item.number
    title := item.title
    openBlockers := facts.elim 0 (·.openBlockers)
    target := facts.bind (·.target)
    status := facts.bind (·.status) }

def WarningKind.name : WarningKind → String
  | .notOpen => "not-open"
  | .malformed => "malformed"
  | .truncated => "truncated"

def skipLe (a b : SkipRecord) : Bool :=
  match a.number, b.number with
  | none, some _ => true
  | some _, none => false
  | none, none => a.kind ≤ b.kind
  | some m, some n => m < n || (m == n && a.kind ≤ b.kind)

def skippedRecords (snapshot : BoardSnapshot) : List SkipRecord :=
  (snapshot.warnings.map fun warning =>
    { number := warning.number, kind := warning.kind.name, reason := warning.reason
      : SkipRecord }).insertionSort fun a b => skipLe a b

def allKnownClosed (warnings : List SkipWarning) : Bool := warnings.all (·.kind == .notOpen)

def warningNote (warnings : List SkipWarning) : String :=
  if warnings.isEmpty then ""
  else if allKnownClosed warnings then s!"; {warnings.length} item(s) recorded as closed"
  else s!"; {warnings.length} item(s) skipped as unevaluable (fail-closed)"

def noOpClassification (snapshot : BoardSnapshot) : NoOpReason × String :=
  let note := warningNote snapshot.warnings
  if snapshot.openItems.isEmpty then
    if !snapshot.warnings.isEmpty && allKnownClosed snapshot.warnings then
      (.epicExhausted, s!"every tracked item is closed; nothing open remains{note}")
    else (.emptyQueue, s!"no open board items in the configured repositories{note}")
  else if snapshot.blockedCandidates.isEmpty then
    (.emptyQueue, s!"{snapshot.openItems.length} open item(s), none eligible under the ready " ++
      s!"predicate and none blocked{note}")
  else
    (.allBlocked, s!"{snapshot.blockedCandidates.length} eligible candidate(s) blocked by " ++
      s!"unresolved dependencies; blocked graph attached{note}")

def selectionAttribution (ordered : List ReadyItem) (taskId : String)
    (routing : RoleRoutingDecision) (consulted : Option (String × Except String SelectorDecision)) :
    String × String :=
  match consulted with
  | some (providerId, .ok selection) =>
    if ordered.any (·.taskId == selection.taskId) then
      let confidence := selection.confidence.elim "" fun value => s!" (confidence {value})"
      (s!"decision-provider:{providerId}{confidence}",
        s!"decision provider selected '{taskId}' among the eligible ready items (spec " ++
          "30-model-routing.md §9.45)")
    else
      (routing.precedencePath,
        s!"decision provider '{providerId}' proposed '{selection.taskId}' outside the eligible " ++
          "ready set; fell back to the first eligible item in P0-first ready order (spec " ++
          "30-model-routing.md §9.45)")
  | some (providerId, .error reason) =>
    (routing.precedencePath,
      s!"decision provider '{providerId}' unavailable ({reason}); fell back to the first eligible " ++
        "item in P0-first ready order (spec 30-model-routing.md §9.45)")
  | none =>
    (routing.precedencePath,
      "first eligible item in P0-first ready order (spec 10-orchestrator.md §9.35)")

def chosenItem (ordered : List ReadyItem)
    (consulted : Option (String × Except String SelectorDecision)) : Option ReadyItem :=
  let proposed : Option ReadyItem := match consulted with
    | some (_, .ok selection) => ordered.find? (·.taskId == selection.taskId)
    | _ => none
  proposed.or ordered.head?

variable {consulted : Option (String × Except String SelectorDecision)}

theorem chosenItem_mem {ordered : List ReadyItem} {item : ReadyItem}
    (h : chosenItem ordered consulted = some item) : item ∈ ordered := by
  obtain h | ⟨-, h⟩ := Option.or_eq_some_iff.mp h
  · split at h
    · exact List.mem_of_find?_eq_some h
    · cases h
  · exact List.mem_of_mem_head? h

theorem chosenItem_eq_none {ordered : List ReadyItem} (h : chosenItem ordered consulted = none) :
    ordered = [] := by
  exact List.head?_eq_none_iff.mp (Option.or_eq_none_iff.mp h).2

def ReadyItem.selected (item : ReadyItem) : SelectedTask :=
  { repo := item.repo
    number := item.number
    title := item.title
    url := item.url
    itemNodeId := item.itemId
    taskId := item.taskId }

def campaignDecision (snapshot : BoardSnapshot) (routing : RoleRoutingDecision)
    (consulted : Option (String × Except String SelectorDecision)) : CampaignDecision :=
  let ordered := computeSelection snapshot.ready snapshot.openItems
  match chosenItem ordered consulted with
  | some item =>
    let attribution := selectionAttribution ordered item.taskId routing consulted
    { kind := .selected
      noOpReason := none
      selected := some item.selected
      role := routing.role
      provider := routing.provider
      model := routing.model
      precedencePath := attribution.1
      fallbackReason := routing.fallbackReason
      workerArgs := workerArgs item.taskId
      rationale := attribution.2
      alternatives := (ordered.filter (·.taskId != item.taskId)).map
        (blockedNode snapshot.openItems)
      blockedGraph := []
      skipped := skippedRecords snapshot }
  | none =>
    let reason := noOpClassification snapshot
    { kind := .noOp
      noOpReason := some reason.1
      selected := none
      role := routing.role
      provider := routing.provider
      model := routing.model
      precedencePath := routing.precedencePath
      fallbackReason := routing.fallbackReason
      workerArgs := []
      rationale := reason.2
      alternatives := []
      blockedGraph := snapshot.blockedCandidates.map (blockedNode snapshot.openItems)
      skipped := skippedRecords snapshot }

theorem campaignDecision_selected {snapshot : BoardSnapshot} {routing : RoleRoutingDecision}
    {task : SelectedTask} (h : (campaignDecision snapshot routing consulted).selected = some task) :
    ∃ item ∈ snapshot.ready, task = item.selected := by
  unfold campaignDecision at h
  dsimp only at h
  split at h
  next item hitem =>
    exact ⟨item, mem_computeSelection.mp (chosenItem_mem hitem), (Option.some.inj h).symm⟩
  next => cases h

theorem campaignDecision_noOp {snapshot : BoardSnapshot} {routing : RoleRoutingDecision}
    (h : (campaignDecision snapshot routing consulted).selected = none) : snapshot.ready = [] := by
  unfold campaignDecision at h
  dsimp only at h
  split at h
  next => cases h
  next hnone =>
    refine List.eq_nil_iff_forall_not_mem.mpr fun item hitem => ?_
    have hordered : item ∈ computeSelection snapshot.ready snapshot.openItems :=
      mem_computeSelection.mpr hitem
    rw [chosenItem_eq_none hnone] at hordered
    exact List.not_mem_nil hordered

def appendBudgetSkipsStr (rationale : String) (budgetSkips : List (String × TaskSkipReason)) :
    String :=
  if budgetSkips.isEmpty then rationale
  else
    let note := budgetSkips.foldl (fun note (taskId, reason) =>
      note ++ " " ++ taskId ++ "(" ++ reason.display ++ ");") "task budget skips:"
    s!"{rationale} [{note}]"

def appendBudgetSkips (decision : CampaignDecision) (budgetSkips : List (String × TaskSkipReason)) :
    CampaignDecision :=
  { decision with rationale := appendBudgetSkipsStr decision.rationale budgetSkips }

end Campaign

import Orchestraitor.Board.Walk

/-!
# Failed reads of a blocked query

A blocked query succeeds exactly when every one of its reads succeeded, apart from the lookups of
the blockers, whose errors it passes over, and from a root that is not found.  `Honest` says this of
a part of a query and composes along its calls.
-/

namespace Board.Query
open Base

def Answered {α : Type} (a : Except BoardContractError α) : Prop :=
  ∀ e, a = .error e → ∃ id, e = .itemNotFound id

/-- the lookup of an item other than the root -/
def IsBlockerLookup (root : BoardItemId) (q : BoardCall) : Prop := ∃ b, q = .item b ∧ b ≠ root

/-- a read after which the query goes on: the errors of blocker lookups are passed over, and the
root may be missing -/
def Harmless (root : BoardItemId) : (q : BoardCall) → q.Answer → Prop
  | .item b, a => b ≠ root ∨ Answered a
  | _, a => ∃ v, a = .ok v

/-- whether all reads so far were harmless -/
def harmlessMonitor (root : BoardItemId) : Calls.Monitor BoardCall.Answer Prop :=
  .watch fun k q a => k ∧ Harmless root q a

/-- all reads of `x` are harmless exactly when `x` succeeds -/
def Honest (root : BoardItemId) {α : Type} (x : QueryM α) : Prop :=
  ∀ k, Calls.Keeps (harmlessMonitor root) (fun r k' => k' ↔ k ∧ ∃ a, r = .ok a) x.run k

namespace Honest
variable {root : BoardItemId} {α β : Type}

theorem pure (a : α) : Honest root (Pure.pure a : QueryM α) := by
  intro k
  show k ↔ k ∧ ∃ b, Except.ok a = .ok b
  simp

theorem bind {x : QueryM α} {f : α → QueryM β} (hx : Honest root x)
    (hf : ∀ a, Honest root (f a)) : Honest root (x >>= f) := by
  intro k
  rw [Calls.keeps_bindE]
  apply (hx k).mono
  intro r k' hk
  cases r with
  | error => simpa using hk
  | ok a =>
    have hk' : k' ↔ k := by simpa using hk
    apply (hf a k').mono
    intro _ _ h
    rw [h, hk']

theorem foldlM {f : β → α → QueryM β} (hf : ∀ b a, Honest root (f b a)) (l : List α) (b : β) :
    Honest root (l.foldlM f b) := by
  induction l generalizing b with
  | nil => exact pure b
  | cons a l ih =>
    exact (hf b a).bind ih

theorem read {q : BoardCall} (hq : ∀ a, Harmless root q a ↔ ∃ v, a = .ok v) :
    Honest root (read q) := by
  intro k
  refine ⟨trivial, fun a _ => ?_⟩
  show (k ∧ Harmless root q a) ↔ _
  rw [hq]
  cases a <;> simp [Except.mapError]

theorem attempt {b : BoardItemId} (hb : b ≠ root) : Honest root (attempt (.item b)) := by
  intro k
  refine ⟨trivial, fun a _ => ?_⟩
  show (k ∧ (b ≠ root ∨ Answered a)) ↔ _
  simp [hb]

theorem lookupRoot (root : BoardItemId) : Honest root (lookupRoot root) := by
  intro k
  refine ⟨trivial, fun a _ => ?_⟩
  show Calls.Keeps (harmlessMonitor root) _ _ (k ∧ (root ≠ root ∨ Answered a))
  cases a with
  | ok item =>
    show (k ∧ (root ≠ root ∨ Answered (Except.ok item))) ↔ k ∧ ∃ b, Except.ok true = .ok b
    simp [Answered]
  | error e =>
    cases e with
    | itemNotFound id =>
      show (k ∧ (root ≠ root ∨ Answered (.error (.itemNotFound id)))) ↔
        k ∧ ∃ b, Except.ok false = .ok b
      simp [Answered]
    | _ =>
      show (k ∧ (root ≠ root ∨ Answered (.error _))) ↔
        k ∧ ∃ b : Bool, (Except.error _ : Except BoardQueryError Bool) = .ok b
      simp [Answered]

theorem projectItem (index : OrdMap BoardItemId (List BoardItemId)) (catalog : List BoardField)
    (item : BoardItem) : Honest root (projectItem index catalog item) := by
  apply bind
  · apply foldlM
    intro _ _
    apply bind
    · exact read fun a => Iff.rfl
    · intro _
      exact pure _
  · intro _
    exact pure _

theorem fetchBlocking (index : OrdMap BoardItemId (List BoardItemId)) (catalog : List BoardField)
    {ids : List BoardItemId} (h : ∀ b ∈ ids, b ≠ root) :
    Honest root (fetchBlocking index catalog ids) := by
  induction ids with
  | nil => exact pure []
  | cons id _ ih =>
    have hrest := ih fun b hb => h b (List.mem_cons_of_mem _ hb)
    apply bind (attempt (h id List.mem_cons_self))
    intro a
    cases a with
    | error => exact hrest
    | ok item =>
      apply bind (projectItem index catalog item)
      intro _
      apply bind hrest
      intro _
      exact pure _

theorem walkBlocked (rootExists : Bool) (edges : List DependencyEdge) :
    Honest root (walkBlocked root rootExists edges) := by
  apply bind (read fun a => Iff.rfl)
  intro catalog
  apply bind (fetchBlocking _ catalog fun b hb => ?_)
  · intro _
    exact pure _
  · exact (left_walk edges root).blocking b (mem_sortDedup.mp hb)

end Honest

theorem after_harmless (root : BoardItemId) (k : Prop) (l : List (Sigma BoardCall.Answer)) :
    (harmlessMonitor root).after k l ↔ k ∧ ∀ e ∈ l, Harmless root e.1 e.2 := by
  induction l generalizing k with
  | nil => simp
  | cons e l ih =>
    rw [Calls.Monitor.after_cons, ih, List.forall_mem_cons]
    show (k ∧ Harmless root e.1 e.2) ∧ _ ↔ _
    rw [and_assoc]

theorem execute_blockedBy {item : String} (h : isBlank item = false) :
    execute (.blockedBy item) = (do
      let rootExists ← lookupRoot item
      let edges ← read .dependencyEdges
      let graph ← walkBlocked item rootExists edges
      return (.blockedBy graph, {
        itemsMatched := graph.blocking.length, truncated := false,
        cycleDetected := graph.cycle.isSome })) := by
  rw [execute, BoardItemId.new, h]
  rfl

theorem honest_execute {item : String} (h : isBlank item = false) :
    Honest item (execute (.blockedBy item)) := by
  rw [execute_blockedBy h]
  apply Honest.bind (Honest.lookupRoot item)
  intro rootExists
  apply Honest.bind (Honest.read fun a => Iff.rfl)
  intro edges
  apply Honest.bind (Honest.walkBlocked rootExists edges)
  intro _
  exact Honest.pure _

section
variable {σ : Type} (provider : Provider σ) (s : σ) (item : String)

def blockedResult : Except BoardQueryError (BoardQueryResultKind × InvocationSummary) :=
  (Calls.run provider (execute (.blockedBy item)).run s).1

def blockedReads : List (Sigma BoardCall.Answer) :=
  Calls.trace provider (execute (.blockedBy item)).run s

variable {item} in
theorem blockedResult_ok_iff (h : isBlank item = false) :
    (∃ r, blockedResult provider s item = .ok r) ↔
      ∀ e ∈ blockedReads provider s item, Harmless item e.1 e.2 := by
  have hk := (honest_execute h True).watch_run (h := provider) s
  have ha := after_harmless item True (blockedReads provider s item)
  rw [true_and] at hk ha
  exact hk.symm.trans ha

theorem blocked_blank (h : isBlank item = true) :
    blockedResult provider s item = .error (.provider "invalid-item-id") ∧
      blockedReads provider s item = [] := by
  rw [blockedResult, blockedReads, execute, BoardItemId.new, h]
  exact ⟨rfl, rfl⟩

theorem Harmless.answered {root : BoardItemId} {q : BoardCall} {a : q.Answer}
    (h : Harmless root q a) (hq : ¬ IsBlockerLookup root q) : Answered a := by
  cases q with
  | item b =>
    rcases h with hb | ha
    · exact absurd ⟨b, rfl, hb⟩ hq
    · exact ha
  | _ =>
    obtain ⟨v, rfl⟩ := h
    exact fun e he => absurd he (by simp)

/-- **Failed reads.**  A blocked query that succeeds had all its reads answered exactly when no
blocker lookup failed although every other read went well. -/
theorem blocked_reads_iff :
    ((∃ r, blockedResult provider s item = .ok r) →
      ∀ e ∈ blockedReads provider s item, Answered e.2) ↔
    ((∀ e ∈ blockedReads provider s item, ¬ IsBlockerLookup item e.1 → Harmless item e.1 e.2) →
      ∀ e ∈ blockedReads provider s item, IsBlockerLookup item e.1 → Answered e.2) := by
  cases hb : isBlank item with
  | true =>
    obtain ⟨hr, ht⟩ := blocked_blank provider s item hb
    simp [ht]
  | false =>
    have hblocker : ∀ e : Sigma BoardCall.Answer, IsBlockerLookup item e.1 →
        Harmless item e.1 e.2 := by
      rintro ⟨q, a⟩ ⟨b, rfl, hne⟩
      exact Or.inl hne
    rw [blockedResult_ok_iff provider s hb]
    constructor
    · intro h hother e he _
      refine h (fun e' he' => ?_) e he
      by_cases hq : IsBlockerLookup item e'.1
      · exact hblocker e' hq
      · exact hother e' he' hq
    · intro h hall e he
      by_cases hq : IsBlockerLookup item e.1
      · exact h (fun e' he' _ => hall e' he') e he hq
      · exact (hall e he).answered hq

end

def flakyProvider : Provider Unit
  | _, .item id => (if id = "b" then .error (.transport "item read") else
      .ok { id, itemType := .task, title := "", body := "", status := "Ready" }, ())
  | _, .dependencyEdges => (.ok [{ blocked := "a", blocks := "b" }], ())
  | _, .fields => (.ok [], ())
  | _, _ => (.error (.transport "not served"), ())

/-- the query answers with an empty blocking set -/
theorem failed_lookup_passed_over :
    (∃ summary, blockedResult flakyProvider () "a" = .ok (.blockedBy {
      root := "a", rootExists := true, blocking := [], cycle := none, depthCapped := false },
      summary)) ∧
    (⟨.item "b", .error (.transport "item read")⟩ : Sigma BoardCall.Answer) ∈
      blockedReads flakyProvider () "a" ∧
    ¬ Answered (α := BoardItem) (.error (.transport "item read")) := by
  refine ⟨⟨_, rfl⟩, ?_, ?_⟩
  · -- the fourth read, after the root, the edges and the fields
    exact .tail _ (.tail _ (.tail _ (.head _)))
  · intro h
    obtain ⟨id, hid⟩ := h _ rfl
    exact absurd hid (by simp)

end Board.Query

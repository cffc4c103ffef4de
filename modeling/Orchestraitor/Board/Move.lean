import Orchestraitor.Base.Layers
import Orchestraitor.Board.Contract
import Orchestraitor.Board.Leases

/-!
# The `board.move` tool

A guarded status transition: the request is resolved against the board, the transition checked
against the policy and the unresolved blockers, a lease claimed, the status written and read back,
and the lease kept or released.  An invocation is a program of calls to the provider, to the clock
and to the lease registry (`MoveM`); each call is one step, so that invocations interleave there.

The delegation chain of a request and the audit record of an invocation are left out.
-/

namespace Board.Move
open Base

/-! ## the policy -/

inductive StatusClass where
  | triage | ready | inProgress | held | done | retired | other
  deriving DecidableEq

def StatusClass.of (status : String) : StatusClass :=
  match status with
  | "Triage" => .triage
  | "Ready" => .ready
  | "In Progress" => .inProgress
  | "Blocked" | "Approval Required" | "Input Required" => .held
  | "Done" => .done
  | "Cancelled" | "Rejected" | "Orphaned" => .retired
  | _ => .other

def StatusClass.asStr : StatusClass → String
  | .triage => "triage"
  | .ready => "ready"
  | .inProgress => "in-progress"
  | .held => "held"
  | .done => "done"
  | .retired => "retired"
  | .other => "other"

def policyAllows : StatusClass → StatusClass → Bool
  | .ready, .inProgress | .held, .inProgress => true
  | .inProgress, .held | .inProgress, .done => true
  | .held, .ready => true
  | .ready, .retired | .inProgress, .retired | .held, .retired => true
  | _, _ => false

def StatusClass.holdsLease : StatusClass → Bool
  | .inProgress | .held => true
  | _ => false

def StatusClass.isTerminal : StatusClass → Bool
  | .done | .retired => true
  | _ => false

theorem policyAllows_terminal {fromClass toClass : StatusClass}
    (h : fromClass.isTerminal = true) : policyAllows fromClass toClass = false := by
  cases fromClass <;> first | rfl | exact absurd h (by decide)

/-! ## requests and outcomes -/

structure BoardMoveRequest where
  item : String
  status : String
  session : String
  leaseTtlSecs : Nat
  fields : OrdMap String String
  edges : List String

inductive BoardMoveRefusal where
  | policyInvalid (fromClass toClass : String) (blocking : Option (List String))
  | leaseConflict (holder : String)
  | missingSession
  | leaseExpired
  | unknownStatus
  | unknownItem
  | providerRejected
  | outOfScope
  deriving DecidableEq

def BoardMoveRefusal.ofContract : BoardContractError → BoardMoveRefusal
  | .itemNotFound _ | .invalidItemId => .unknownItem
  | .statusNotFound _ => .unknownStatus
  | .writeRejected _ | .transport _ => .providerRejected
  | .fieldNotFound _ | .fieldTypeMismatch _ _ _ | .duplicateEdge _ _
  | .crossReferenceNotFound _ _ => .outOfScope

def BoardMoveRefusal.class : BoardMoveRefusal → String
  | .policyInvalid _ _ _ => "policy-invalid"
  | .leaseConflict _ => "lease-conflict"
  | .missingSession => "missing-session"
  | .leaseExpired => "lease-expired"
  | .unknownStatus => "unknown-status"
  | .unknownItem => "unknown-item"
  | .providerRejected => "provider-rejected"
  | .outOfScope => "out-of-scope"

structure BoardMoveApplied where
  item : String
  fromStatus : String
  toStatus : String
  leaseAcquired : Bool
  deriving DecidableEq

structure LeaseBookkeepingFailure where
  failure : String
  leaseAcquired : Bool
  deriving DecidableEq

inductive BoardMoveOutcome where
  | applied (applied : BoardMoveApplied) (leaseBookkeepingFailure : Option LeaseBookkeepingFailure)
  | refused (refusal : BoardMoveRefusal)
  | indeterminate (item requestedStatus failure : String)
  deriving DecidableEq

structure InvocationSummary where
  kind : String
  refusal : String
  indeterminate : String

abbrev MoveResult := BoardMoveOutcome × InvocationSummary

def refused (refusal : BoardMoveRefusal) : MoveResult :=
  (.refused refusal, { kind := "refused", refusal := refusal.class, indeterminate := "" })

def indeterminate (request : BoardMoveRequest) (item : BoardItemId) (failure : String) :
    MoveResult :=
  (.indeterminate item request.status failure,
    { kind := "indeterminate", refusal := "", indeterminate := failure })

/-! ## the calls of an invocation -/

inductive BoardMoveError where
  | eventStore (label : String)

inductive MoveCall where
  | board (q : BoardCall)
  | unixSecsNow
  | tryClaim (item session : String) (expiresAtUnixSecs : Nat)
  | release (item session : String)

@[reducible] def MoveCall.Answer : MoveCall → Type
  | .board q => q.Answer
  | .unixSecsNow => Nat
  | .tryClaim _ _ _ => Except BoardMoveError ClaimOutcome
  | .release _ _ => Except BoardMoveError Unit

abbrev MoveM := Calls MoveCall.Answer

/-- one call -/
def ask (q : MoveCall) : MoveM q.Answer := Calls.ask q

def board (q : BoardCall) : MoveM q.Answer := ask (.board q)

/-! ## the guards -/

variable (request : BoardMoveRequest)

def resolveTarget :
    MoveM (Except BoardMoveRefusal (BoardItemId × BoardItem)) :=
  if isBlank request.session then return .error .missingSession
  else if !request.fields.isEmpty || !request.edges.isEmpty then return .error .outOfScope
  else match BoardItemId.new request.item with
    | .error _ => return .error .unknownItem
    | .ok itemId => do
      match ← board (.item itemId) with
      | .error (.itemNotFound _) => return .error .unknownItem
      | .error _ => return .error .providerRejected
      | .ok item =>
        match ← board .statuses with
        | .error _ => return .error .providerRejected
        | .ok statuses =>
          if !statuses.any (fun known => known.name = request.status) then
            return .error .unknownStatus
          else return .ok (itemId, item)

def blockerRound (id : BoardItemId) (blockers : List String) (edge : DependencyEdge) :
    ExceptT BoardContractError MoveM (List String) :=
  if edge.blocked ≠ id then return blockers
  else do
    let blocker ← ExceptT.mk (board (.item edge.blocks))
    return if (StatusClass.of blocker.status).isTerminal then blockers
      else blockers ++ [edge.blocks]

def unresolvedBlockers (id : BoardItemId) : ExceptT BoardContractError MoveM (List String) := do
  let edges ← ExceptT.mk (board .dependencyEdges)
  let blockers ← edges.foldlM (blockerRound id) []
  return sortDedup blockers

/-- the policy matrix, and the unresolved blockers of an item that would become active -/
def policyRefusal (id : BoardItemId) (fromClass toClass : StatusClass) :
    MoveM (Option BoardMoveRefusal) :=
  if !policyAllows fromClass toClass then
    return some (.policyInvalid fromClass.asStr toClass.asStr none)
  else if toClass ≠ .inProgress then return none
  else do
    match ← (unresolvedBlockers id).run with
    | .error _ => return some .providerRejected
    | .ok [] => return none
    | .ok blockers => return some (.policyInvalid fromClass.asStr toClass.asStr (some blockers))

def defaultLeaseTtlSecs : Nat := 60 * 60
def maxLeaseTtlSecs : Nat := 24 * 60 * 60

def leaseTtl (requested : Nat) : Nat :=
  if requested = 0 then defaultLeaseTtlSecs else min requested maxLeaseTtlSecs

def atomicClaim (id : BoardItemId) (session : String) (leaseTtlSecs : Nat) :
    MoveM (Except BoardMoveError ClaimOutcome) := do
  let now ← ask .unixSecsNow
  ask (.tryClaim id session (satAdd64 now (leaseTtl leaseTtlSecs)))

/-! ## the write -/

def releaseIf (condition : Bool) (id : BoardItemId) (session : String) : MoveM Unit :=
  if condition then do
    let _ ← ask (.release id session)
    return ()
  else return ()

def postWriteBookkeeping (id : BoardItemId) (session : String) (fromClass : StatusClass)
    (leaseHoldingTarget freshClaim : Bool) : MoveM (Option LeaseBookkeepingFailure) :=
  if leaseHoldingTarget then return none
  else if fromClass.holdsLease then do
    match ← ask (.release id session) with
    | .ok () => return none
    | .error _ => return some { failure := "release-failed", leaseAcquired := false }
  else do
    releaseIf freshClaim id session
    return none

def verifyWrite (id : BoardItemId) (item : BoardItem) (freshClaim : Bool) : MoveM MoveResult := do
  match ← board (.item id) with
  | .error _ => return indeterminate request id "read-back-failed"
  | .ok after =>
    if after.status ≠ request.status then return indeterminate request id "read-back-drifted"
    else do
      let leaseHoldingTarget := (StatusClass.of request.status).holdsLease
      let failure ← postWriteBookkeeping id request.session (StatusClass.of item.status)
        leaseHoldingTarget freshClaim
      return (.applied {
          item := id, fromStatus := item.status, toStatus := after.status,
          leaseAcquired := leaseHoldingTarget } failure,
        { kind := "applied", refusal := "", indeterminate := "" })

/-- The write under a claim.  A transport failure does not prove that the write did not land, so
only another error gives a fresh claim back. -/
def guardedWrite (id : BoardItemId) (item : BoardItem) (freshClaim : Bool) : MoveM MoveResult := do
  match ← board (.setItemStatus id request.status) with
  | .error (.transport _) => return indeterminate request id "write-transport-failed"
  | .error error => do
    releaseIf freshClaim id request.session
    return refused (.ofContract error)
  | .ok () => verifyWrite request id item freshClaim

def execute : MoveM MoveResult := do
  match ← resolveTarget request with
  | .error refusal => return refused refusal
  | .ok (itemId, item) =>
    match ← policyRefusal itemId (.of item.status) (.of request.status) with
    | some refusal => return refused refusal
    | none =>
      match ← atomicClaim itemId request.session request.leaseTtlSecs with
      | .error _ => return refused .providerRejected
      | .ok (.foreignHolder holder) => return refused (.leaseConflict holder)
      | .ok .ownExpired => return refused .leaseExpired
      | .ok .claimed => guardedWrite request itemId item true
      | .ok .renewed => guardedWrite request itemId item false

/-! ## the environment of the invocations -/

structure Environment (σ : Type) where
  provider : Provider σ
  clock : σ → Nat × σ

def Environment.handle {σ : Type} (env : Environment σ) :
    σ × LeaseRegistry → (q : MoveCall) → q.Answer × (σ × LeaseRegistry)
  | (s, leases), .board q => ((env.provider s q).1, ((env.provider s q).2, leases))
  | (s, leases), .unixSecsNow => ((env.clock s).1, ((env.clock s).2, leases))
  | (s, leases), .tryClaim item session expires =>
    let claim := leases.tryClaim (env.clock s).1 item session expires
    (.ok claim.1, ((env.clock s).2, claim.2))
  | (s, leases), .release item session => (.ok (), (s, leases.release item session))

/-! ## the guards under an observer -/

/-- the provider calls of the guards -/
def IsGuardRead : BoardCall → Prop
  | .item _ | .statuses | .dependencyEdges => True
  | _ => False

section
variable {κ : Type} {m : Calls.Monitor MoveCall.Answer κ} {k : κ}

def Unmoved (m : Calls.Monitor MoveCall.Answer κ) (k : κ) : Prop :=
  ∀ q, IsGuardRead q → m.permits k (.board q) ∧
    ∀ a, m.expects k (.board q) a → m.next k (.board q) a = k

theorem keeps_read (h : Unmoved m k) {q : BoardCall} (hq : IsGuardRead q) :
    Calls.Keeps m (fun _ k' => k' = k) (board q) k := by
  refine ⟨(h q hq).1, fun a ha => ?_⟩
  exact (h q hq).2 a ha

theorem keeps_unresolvedBlockers (h : Unmoved m k) (id : BoardItemId) :
    Calls.Keeps m (fun _ k' => k' = k) (unresolvedBlockers id).run k := by
  have hround : ∀ blockers edge,
      Calls.Keeps m (fun _ k' => k' = k) (blockerRound id blockers edge).run k := by
    intro _ edge
    unfold blockerRound
    split_ifs
    · rfl
    · rw [Calls.keeps_bindE]
      apply (keeps_read h (q := .item edge.blocks) trivial).mono
      intro r _ hk
      cases r <;> exact hk
  rw [unresolvedBlockers, Calls.keeps_bindE]
  apply (keeps_read h (q := .dependencyEdges) trivial).mono
  intro r k' hk
  subst hk
  cases r with
  | error => rfl
  | ok edges =>
    dsimp only
    rw [Calls.keeps_bindE]
    apply (Calls.keeps_foldlM hround edges []).mono
    intro r _ hk
    cases r <;> exact hk

theorem keeps_policyRefusal (h : Unmoved m k) (id : BoardItemId) (fromClass toClass : StatusClass) :
    Calls.Keeps m (fun r k' => k' = k ∧ (r = none → policyAllows fromClass toClass = true))
      (policyRefusal id fromClass toClass) k := by
  unfold policyRefusal
  by_cases hp : policyAllows fromClass toClass = true
  · rw [if_neg (by simp [hp])]
    split_ifs
    · exact ⟨rfl, fun _ => hp⟩
    · rw [Calls.keeps_bind]
      apply (keeps_unresolvedBlockers h id).mono
      intro r _ hk
      rcases r with e | _ | _ <;> exact ⟨hk, fun _ => hp⟩
  · rw [if_pos (by simp [hp])]
    exact ⟨rfl, fun e => absurd e (by simp)⟩

/-- the resolution of the target reads the status of the requested item, after which the observer
knows `k1` -/
theorem keeps_resolveTarget (request : BoardMoveRequest) (k1 : BoardItem → κ)
    (hread : m.permits k (.board (.item request.item)))
    (hok : ∀ item, m.expects k (.board (.item request.item)) (.ok item) →
      m.next k (.board (.item request.item)) (.ok item) = k1 item ∧ Unmoved m (k1 item))
    (herr : ∀ e, m.next k (.board (.item request.item)) (.error e) = k) :
    Calls.Keeps m (fun r k' => match r with
        | .ok (id, item) => id = request.item ∧ k' = k1 item
        | .error _ => k' = k ∨ ∃ item, k' = k1 item)
      (resolveTarget request) k := by
  unfold resolveTarget
  split_ifs
  · exact Or.inl rfl
  · exact Or.inl rfl
  · unfold BoardItemId.new
    by_cases hb : isBlank request.item = true
    · rw [if_pos hb]
      exact Or.inl rfl
    · rw [if_neg hb]
      refine ⟨hread, fun a ha => ?_⟩
      cases a with
      | error e =>
        rw [herr]
        cases e <;> exact Or.inl rfl
      | ok item =>
        obtain ⟨hk, hun⟩ := hok item ha
        rw [hk]
        show Calls.Keeps m _ (board .statuses >>= _) (k1 item)
        rw [Calls.keeps_bind]
        apply (keeps_read hun (q := .statuses) trivial).mono
        intro r _ hk'
        subst hk'
        cases r with
        | error => exact Or.inr ⟨item, rfl⟩
        | ok =>
          dsimp only
          split_ifs
          · exact Or.inr ⟨item, rfl⟩
          · exact ⟨rfl, rfl⟩

def AfterClaim (m : Calls.Monitor MoveCall.Answer κ) (post : MoveResult → κ → Prop)
    (request : BoardMoveRequest) (item : BoardItem) :
    Except BoardMoveError ClaimOutcome → κ → Prop
  | .ok .claimed, k => (guardedWrite request request.item item true).Keeps m post k
  | .ok .renewed, k => (guardedWrite request request.item item false).Keeps m post k
  | _, k => ∀ refusal, post (refused refusal) k

/-- An invocation, from what the observer makes of the read of the status (`k1`), of the clock and
of the claim. -/
theorem keeps_execute {post : MoveResult → κ → Prop} (request : BoardMoveRequest)
    (k1 : BoardItem → κ) (hread : m.permits k (.board (.item request.item)))
    (hok : ∀ item, m.expects k (.board (.item request.item)) (.ok item) →
      m.next k (.board (.item request.item)) (.ok item) = k1 item)
    (herr : ∀ e, m.next k (.board (.item request.item)) (.error e) = k)
    (hun : ∀ item, Unmoved m (k1 item))
    (hrefused : ∀ refusal k', k' = k ∨ (∃ item, k' = k1 item) → post (refused refusal) k')
    (hnow : ∀ item, m.permits (k1 item) .unixSecsNow ∧
      ∀ now, m.next (k1 item) .unixSecsNow now = k1 item)
    (hclaim : ∀ item expires, policyAllows (.of item.status) (.of request.status) = true →
      m.permits (k1 item) (.tryClaim request.item request.session expires) ∧
      ∀ a, AfterClaim m post request item a
        (m.next (k1 item) (.tryClaim request.item request.session expires) a)) :
    (execute request).Keeps m post k := by
  rw [execute, Calls.keeps_bind]
  apply (keeps_resolveTarget request k1 hread (fun item ha => ⟨hok item ha, hun item⟩) herr).mono
  intro r k' hr
  cases r with
  | error refusal => exact hrefused refusal k' hr
  | ok target =>
    obtain ⟨id, item⟩ := target
    obtain ⟨rfl, rfl⟩ := hr
    rw [Calls.keeps_bind]
    apply (keeps_policyRefusal (hun item) _ _ _).mono
    intro r _ hr
    obtain ⟨rfl, hp⟩ := hr
    cases r with
    | some refusal => exact hrefused refusal _ (Or.inr ⟨item, rfl⟩)
    | none =>
      -- the clock, then the claim
      refine ⟨(hnow item).1, fun now _ => ?_⟩
      rw [(hnow item).2 now]
      obtain ⟨hpermits, hafter⟩ :=
        hclaim item (satAdd64 now (leaseTtl request.leaseTtlSecs)) (hp rfl)
      refine ⟨hpermits, fun a _ => ?_⟩
      have h := hafter a
      rcases a with e | ⟨_⟩ | ⟨_⟩ | ⟨_⟩ | ⟨_⟩
      · exact h _
      · exact h
      · exact h
      · exact h _
      · exact h _

end

end Board.Move

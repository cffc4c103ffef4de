import Orchestraitor.Board.Move

/-!
# The leases of a move

What an invocation of `board.move` leaves in the lease registry: a fresh claim whose write was
refused is given back, one whose write failed in transport is kept.
-/

namespace Board.Move
open Base

/-- what became of the claim of an invocation -/
inductive Phase where
  | unclaimed | fresh | renewed | returned
  deriving DecidableEq

variable (request : BoardMoveRequest)

def leaseMonitor : Calls.Monitor MoveCall.Answer Phase where
  permits
    | k, .tryClaim item session _ => k = .unclaimed ∧ item = request.item ∧ session = request.session
    | k, .release item session =>
      (k = .fresh ∨ k = .renewed) ∧ item = request.item ∧ session = request.session
    | _, _ => True
  expects _ _ _ := True
  next
    | _, .tryClaim _ _ _, .ok .claimed => .fresh
    | .unclaimed, .tryClaim _ _ _, .ok .renewed => .renewed
    | .fresh, .release _ _, _ => .returned
    | k, _, _ => k

def LeasesAt (start : LeaseRegistry) :
    Phase → LeaseRegistry → Prop
  | .unclaimed, leases | .returned, leases => leases = start
  | .fresh, leases => start[(request.item, request.session)]? = none ∧
      ∃ lease, leases = start.insert (request.item, request.session) lease
  | .renewed, _ => True

theorem unmoved_leaseMonitor (k : Phase) : Unmoved (leaseMonitor request) k :=
  fun _ _ => ⟨trivial, fun _ _ => rfl⟩

theorem tryClaim_registry (leases : LeaseRegistry) (now : Nat) (item session : String)
    (expires : Nat) :
    match (leases.tryClaim now item session expires).1 with
    | .claimed => leases[(item, session)]? = none ∧
        ∃ lease, (leases.tryClaim now item session expires).2 = leases.insert (item, session) lease
    | .renewed => True
    | _ => (leases.tryClaim now item session expires).2 = leases := by
  unfold LeaseRegistry.tryClaim
  cases leases.live now item with
  | some =>
    dsimp only
    split_ifs
    · rfl
    · trivial
  | none =>
    dsimp only
    split_ifs with h
    · rfl
    · exact ⟨by simpa using h, _, rfl⟩

theorem handle_leases {σ : Type} (env : Environment σ) (request : BoardMoveRequest)
    (start : LeaseRegistry) (k : Phase) (w : σ × LeaseRegistry) (q : MoveCall)
    (hw : LeasesAt request start k w.2) (hp : (leaseMonitor request).permits k q) :
    (leaseMonitor request).expects k q (env.handle w q).1 ∧
      LeasesAt request start ((leaseMonitor request).next k q (env.handle w q).1)
        (env.handle w q).2.2 := by
  refine ⟨trivial, ?_⟩
  obtain ⟨s, leases⟩ := w
  cases q with
  | board | unixSecsNow => exact hw
  | tryClaim item session expires =>
    obtain ⟨rfl, rfl, rfl⟩ := hp
    obtain rfl : leases = start := hw
    have h := tryClaim_registry leases (env.clock s).1 request.item request.session expires
    show LeasesAt request leases ((leaseMonitor request).next .unclaimed
      (.tryClaim request.item request.session expires)
      (.ok (leases.tryClaim (env.clock s).1 request.item request.session expires).1))
      (leases.tryClaim (env.clock s).1 request.item request.session expires).2
    cases hc : (leases.tryClaim (env.clock s).1 request.item request.session expires).1 <;>
      rw [hc] at h <;> exact h
  | release =>
    obtain ⟨hk, rfl, rfl⟩ := hp
    rcases hk with rfl | rfl
    · obtain ⟨hnone, lease, rfl⟩ := hw
      exact OrdMap.erase_insert_self hnone lease
    · trivial

/-- a refusal keeps no fresh claim, and a transport failure of the write keeps every claim -/
def Accounted (r : MoveResult) (k : Phase) : Prop :=
  (∀ refusal, r.1 = .refused refusal → k ≠ .fresh) ∧
    ∀ item status, r.1 = .indeterminate item status "write-transport-failed" →
      k = .fresh ∨ k = .renewed

theorem accounted_refused {refusal : BoardMoveRefusal} {k : Phase} (h : k ≠ .fresh) :
    Accounted (refused refusal) k :=
  ⟨fun _ _ => h, fun _ _ e => absurd e (by simp [refused])⟩

def claimPhase (freshClaim : Bool) : Phase := if freshClaim then .fresh else .renewed

theorem claimPhase_held (freshClaim : Bool) :
    claimPhase freshClaim = .fresh ∨ claimPhase freshClaim = .renewed := by
  cases freshClaim
  · exact Or.inr rfl
  · exact Or.inl rfl

section
variable {request : BoardMoveRequest} (freshClaim : Bool)

theorem keeps_releaseIf : (releaseIf freshClaim request.item request.session).Keeps
    (leaseMonitor request) (fun _ k => k ≠ .fresh) (claimPhase freshClaim) := by
  cases freshClaim with
  | false => exact fun e => absurd e (by decide)
  | true => exact ⟨⟨Or.inl rfl, rfl, rfl⟩, fun _ _ => Phase.noConfusion⟩

theorem keeps_postWriteBookkeeping (fromClass : StatusClass) (leaseHoldingTarget : Bool) :
    (postWriteBookkeeping request.item request.session fromClass leaseHoldingTarget
      freshClaim).Keeps (leaseMonitor request) (fun _ _ => True) (claimPhase freshClaim) := by
  unfold postWriteBookkeeping
  split_ifs
  · trivial
  · refine ⟨⟨claimPhase_held freshClaim, rfl, rfl⟩, fun a _ => ?_⟩
    cases a <;> trivial
  · rw [Calls.keeps_bind]
    exact (keeps_releaseIf freshClaim).mono fun _ _ _ => trivial

theorem keeps_verifyWrite (item : BoardItem) :
    (verifyWrite request request.item item freshClaim).Keeps (leaseMonitor request) Accounted
      (claimPhase freshClaim) := by
  -- neither an applied move nor a failed read-back is a refusal or a failed write
  have hfailed : ∀ failure k, failure ≠ "write-transport-failed" →
      Accounted (indeterminate request request.item failure) k := by
    intro _ _ hne
    refine ⟨fun _ e => absurd e (by simp [indeterminate]), fun _ _ e => ?_⟩
    obtain ⟨-, -, e⟩ := BoardMoveOutcome.indeterminate.inj e
    exact absurd e hne
  rw [verifyWrite, Calls.keeps_bind]
  apply (keeps_read (unmoved_leaseMonitor request _) (q := .item request.item) trivial).mono
  intro r k hk
  subst hk
  cases r with
  | error => exact hfailed _ _ (by decide)
  | ok =>
    dsimp only
    split_ifs
    · exact hfailed _ _ (by decide)
    · rw [Calls.keeps_bind]
      apply (keeps_postWriteBookkeeping freshClaim _ _).mono
      intro _ _ _
      exact ⟨fun _ e => absurd e (by simp), fun _ _ e => absurd e (by simp)⟩

theorem keeps_guardedWrite (item : BoardItem) :
    (guardedWrite request request.item item freshClaim).Keeps (leaseMonitor request) Accounted
      (claimPhase freshClaim) := by
  refine ⟨trivial, fun a _ => ?_⟩
  show Calls.Keeps (leaseMonitor request) Accounted _ (claimPhase freshClaim)
  cases a with
  | ok => exact keeps_verifyWrite freshClaim item
  | error e =>
    cases e with
    | transport =>
      exact ⟨fun _ e => absurd e (by simp [indeterminate]), fun _ _ _ => claimPhase_held freshClaim⟩
    | _ =>
      show Calls.Keeps _ _ (releaseIf freshClaim request.item request.session >>= _) _
      rw [Calls.keeps_bind]
      exact (keeps_releaseIf freshClaim).mono fun _ _ hk => accounted_refused hk

end

theorem keeps_execute_leases :
    (execute request).Keeps (leaseMonitor request) Accounted .unclaimed := by
  have hstart : ∀ refusal, Accounted (refused refusal) .unclaimed :=
    fun _ => accounted_refused (by decide)
  apply keeps_execute request (fun _ => .unclaimed)
  · trivial
  · exact fun _ _ => rfl
  · exact fun _ => rfl
  · exact fun _ => unmoved_leaseMonitor request .unclaimed
  · intro refusal k hk
    rcases hk with rfl | ⟨_, rfl⟩ <;> exact hstart refusal
  · exact fun _ => ⟨trivial, fun _ => rfl⟩
  · intro item _ _
    refine ⟨⟨rfl, rfl, rfl⟩, fun a => ?_⟩
    rcases a with e | ⟨_⟩ | ⟨_⟩ | ⟨_⟩ | ⟨_⟩
    · exact hstart
    · exact keeps_guardedWrite true item
    · exact keeps_guardedWrite false item
    · exact hstart
    · exact hstart

/-- the invocation made a fresh claim -/
def FreshClaim (trace : List (Sigma MoveCall.Answer)) : Prop :=
  ∃ item session expires,
    (⟨.tryClaim item session expires, .ok .claimed⟩ : Sigma MoveCall.Answer) ∈ trace

theorem after_freshClaim {trace : List (Sigma MoveCall.Answer)} {k : Phase}
    (h : FreshClaim trace ∨ k = .fresh ∨ k = .returned) :
    (leaseMonitor request).after k trace = .fresh ∨
      (leaseMonitor request).after k trace = .returned := by
  induction trace generalizing k with
  | nil =>
    rcases h with ⟨_, _, _, hm⟩ | h
    · exact absurd hm (by simp)
    · exact h
  | cons e _ ih =>
    rw [Calls.Monitor.after_cons]
    apply ih
    rcases h with ⟨item, session, expires, hm⟩ | h
    · rcases List.mem_cons.mp hm with rfl | hm
      · exact Or.inr (Or.inl rfl)
      · exact Or.inl ⟨item, session, expires, hm⟩
    · -- no call takes the two phases back to the others
      obtain ⟨q, a⟩ := e
      refine Or.inr ?_
      rcases h with rfl | rfl <;> cases q with
      | board | unixSecsNow | release => simp [leaseMonitor]
      | tryClaim => rcases a with e | ⟨_⟩ | ⟨_⟩ | ⟨_⟩ | ⟨_⟩ <;> simp [leaseMonitor]

theorem leases_of_freshClaim {σ : Type} (env : Environment σ) (s : σ) (leases : LeaseRegistry)
    (request : BoardMoveRequest)
    (hclaim : FreshClaim ((execute request).trace env.handle (s, leases))) :
    let r := (execute request).run env.handle (s, leases)
    (∀ refusal, r.1.1 = .refused refusal → r.2.2 = leases) ∧
    ∀ item status, r.1.1 = .indeterminate item status "write-transport-failed" →
      ∃ lease, r.2.2 = leases.insert (request.item, request.session) lease := by
  obtain ⟨⟨hrefused, hfailed⟩, hleases⟩ := (keeps_execute_leases request).run
    (fun k w q => handle_leases env request leases k w q) (s := (s, leases)) rfl
  have hphase := after_freshClaim request (k := .unclaimed) (Or.inl hclaim)
  refine ⟨fun refusal h => ?_, fun item status h => ?_⟩
  · rcases hphase with e | e
    · exact absurd e (hrefused refusal h)
    · rw [e] at hleases
      exact hleases
  · rcases hphase with e | e
    · rw [e] at hleases
      exact hleases.2
    · rcases hfailed item status h with e' | e' <;> exact absurd (e'.symm.trans e) (by decide)

open LeaseRegistry in
/-- **Leases.**  After any calls with a clock that does not go back, an item has at most one
unexpired lease; a claim succeeds iff no other session has one and the session's own lease has not
expired; a call leaves the leases of all other sessions alone.  An invocation of `board.move` with a
fresh claim that is refused leaves the registry as it was before the claim; one whose write fails in
transport keeps that claim and nothing else. -/
theorem lease_discipline :
    (∀ calls now, ClockedUntil calls now →
      (∀ item s₁ s₂, (run calls).Unexpired item s₁ now → (run calls).Unexpired item s₂ now →
        s₁ = s₂) ∧
      (∀ item session expires,
        ((tryClaim (run calls) now item session expires).1 = .claimed ∨
          (tryClaim (run calls) now item session expires).1 = .renewed) ↔
        (∀ s, s ≠ session → ¬ (run calls).Unexpired item s now) ∧
          ¬ (run calls).Expired item session now) ∧
      ∀ call (item s : String), s ≠ call.session →
        (apply (run calls) now call)[(item, s)]? = (run calls)[(item, s)]?) ∧
    ∀ (σ : Type) (env : Environment σ) (s : σ) (leases : LeaseRegistry)
      (request : BoardMoveRequest),
      FreshClaim ((execute request).trace env.handle (s, leases)) →
      let r := (execute request).run env.handle (s, leases)
      (∀ refusal, r.1.1 = .refused refusal → r.2.2 = leases) ∧
      ∀ item status, r.1.1 = .indeterminate item status "write-transport-failed" →
        ∃ lease, r.2.2 = leases.insert (request.item, request.session) lease := by
  refine ⟨fun calls now h => ?_, fun σ env s leases request => leases_of_freshClaim env s leases request⟩
  have held := held_run h
  refine ⟨fun item s₁ s₂ => held.exclusive item now s₁ s₂ (le_refl _),
    tryClaim_succeeds_iff held, fun call item s hs => apply_other _ _ call hs⟩

def brokenWrites : Environment Unit where
  provider
    | _, .item id =>
      (.ok { id, itemType := .task, title := "", body := "", status := "In Progress" }, ())
    | _, .statuses => (.ok [{ id := "status-0", name := "Blocked" }], ())
    | _, _ => (.error (.transport "status write"), ())
  clock _ := (10, ())

def sampleMove (status : String) : BoardMoveRequest :=
  { item := "i", status, session := "s", leaseTtlSecs := 5, fields := ∅, edges := [] }

theorem brokenWrites_claims :
    FreshClaim ((execute (sampleMove "Blocked")).trace brokenWrites.handle ((), ∅)) := by
  refine ⟨"i", "s", 15, ?_⟩
  -- the item, the statuses and the clock come first
  exact .tail _ (.tail _ (.tail _ (.head _)))

/-- the write of a fresh claim fails in transport, and the claim is all that is left of the move -/
theorem lease_discipline_failed_write :
    FreshClaim ((execute (sampleMove "Blocked")).trace brokenWrites.handle ((), ∅)) ∧
    ∃ lease, ((execute (sampleMove "Blocked")).run brokenWrites.handle ((), ∅)).2.2 =
      (∅ : LeaseRegistry).insert ("i", "s") lease := by
  refine ⟨brokenWrites_claims, ?_⟩
  exact (lease_discipline.2 Unit brokenWrites () ∅ (sampleMove "Blocked") brokenWrites_claims).2 "i" "Blocked"
    (by decide +kernel)

/-- A session whose lease has expired cannot claim the item although nobody else holds it, and a
move whose write fails in transport keeps its fresh claim. -/
theorem expired_claim_refused :
    let calls := [(0, .tryClaim "i" "s" 5)]
    let leases := LeaseRegistry.run calls
    let r := (execute (sampleMove "Blocked")).run brokenWrites.handle ((), ∅)
    (LeaseRegistry.ClockedUntil calls 10 ∧ (∀ s, s ≠ "s" → ¬ leases.Unexpired "i" s 10) ∧
      (leases.tryClaim 10 "i" "s" 20).1 = .ownExpired) ∧
    FreshClaim ((execute (sampleMove "Blocked")).trace brokenWrites.handle ((), ∅)) ∧
    r.1.1 = .indeterminate "i" "Blocked" "write-transport-failed" ∧
    r.2.2[("i", "s")]? = some { holder := "s", expiresAtUnixSecs := 15 } := by
  refine ⟨⟨by simp [LeaseRegistry.ClockedUntil], fun s hs => ?_, by decide +kernel⟩,
    brokenWrites_claims, by decide +kernel, by decide +kernel⟩
  rintro ⟨lease, hl, -⟩
  rw [LeaseRegistry.run, List.foldl_cons, List.foldl_nil, LeaseRegistry.apply_other _ _ _ hs] at hl
  exact absurd hl (by simp)

end Board.Move

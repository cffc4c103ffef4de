import Orchestraitor.Base.Pool
import Orchestraitor.Board.InMemory
import Orchestraitor.Board.Move

/-!
# Moves that run concurrently

Any number of invocations of `board.move` on one provider and one lease registry, interleaved call
by call.  The status of an item is read before its lease is claimed, so a claim does not protect
the check of the transition: another move can complete in between (`stale_status_reopens`).  Without
such a write every transition is an allowed one (`quiet_moves_allowed`).
-/

namespace Board.Move
open Base

/-! ## the statuses of a board -/

/-- `held` is the status of each item, and only status writes change it -/
structure HoldsStatuses {σ : Type} (env : Environment σ) (held : σ → BoardItemId → Option String) :
    Prop where
  read : ∀ s q, IsGuardRead q → held (env.provider s q).2 = held s
  clock : ∀ s, held (env.clock s).2 = held s
  item : ∀ s id item, (env.provider s (.item id)).1 = .ok item → held s id = some item.status
  write_own : ∀ s id status, held (env.provider s (.setItemStatus id status)).2 id = some status ∨
    held (env.provider s (.setItemStatus id status)).2 id = held s id
  write_other : ∀ s id status other, other ≠ id →
    held (env.provider s (.setItemStatus id status)).2 other = held s other

def memoryBoard (now : Nat) : Environment BoardState where
  provider := inMemory
  clock s := (now, s)

def heldStatus (s : BoardState) (id : BoardItemId) : Option String := s.items[id]?.map (·.status)

theorem memoryBoard_holdsStatuses (now : Nat) : HoldsStatuses (memoryBoard now) heldStatus where
  read s q hq := by
    cases q <;> first | rfl | exact hq.elim
  clock _ := rfl
  item s id item h := by
    show s.items[id]?.map (·.status) = some item.status
    change s.items[id]?.elim (Except.error (BoardContractError.itemNotFound id)) Except.ok =
      Except.ok item at h
    cases hi : s.items[id]? with
    | none => simp [hi] at h
    | some found =>
      rw [hi] at h
      obtain rfl : found = item := Except.ok.inj h
      rfl
  write_own s id status := by
    show heldStatus (s.setItemStatus id status).2 id = _ ∨ heldStatus (s.setItemStatus id status).2 id = _
    rcases s.setItemStatus_cases id status with h | ⟨item, h⟩
    · exact Or.inr (by rw [h])
    · exact Or.inl (by rw [h]; simp [heldStatus])
  write_other s id status other hne := by
    show heldStatus (s.setItemStatus id status).2 other = _
    rcases s.setItemStatus_cases id status with h | ⟨item, h⟩
    · rw [h]
    · rw [h]
      simp [heldStatus, Std.ExtTreeMap.getElem?_insert, hne.symm]

/-! ## what an invocation has seen -/

/-- what an invocation knows of the status of its item -/
inductive Sight where
  | unread
  | read (status : String)
  | written

/-- the one write of an invocation is an allowed transition from the status it has read -/
def statusMonitor (request : BoardMoveRequest) : Calls.Monitor MoveCall.Answer Sight where
  permits
    | k, .board (.setItemStatus id status) =>
      id = request.item ∧ ∃ seen, k = .read seen ∧ policyAllows (.of seen) (.of status) = true
    | _, .board q => IsGuardRead q
    | _, _ => True
  expects _ _ _ := True
  next
    | .unread, .board (.item id), .ok item =>
      if id = request.item then .read item.status else .unread
    | _, .board (.setItemStatus _ _), _ => .written
    | k, _, _ => k

theorem next_item (request : BoardMoveRequest) (item : BoardItem) :
    (statusMonitor request).next .unread (.board (.item request.item)) (.ok item) =
      .read item.status :=
  if_pos rfl

theorem next_cases (request : BoardMoveRequest) (k : Sight) (q : MoveCall) (a : q.Answer) :
    (statusMonitor request).next k q a = .written ∨
      (∀ id status, q ≠ .board (.setItemStatus id status)) ∧
        ((statusMonitor request).next k q a = k ∨
          ∃ item, (⟨q, a⟩ : Sigma MoveCall.Answer) = ⟨.board (.item request.item), .ok item⟩ ∧
            k = .unread ∧ (statusMonitor request).next k q a = .read item.status) := by
  cases q with
  | board b =>
    cases b with
    | setItemStatus => exact Or.inl (by cases k <;> rfl)
    | item id =>
      refine Or.inr ⟨by simp, ?_⟩
      cases k with
      | unread =>
        cases a with
        | error => exact Or.inl rfl
        | ok item =>
          by_cases e : id = request.item
          · subst e
            exact Or.inr ⟨item, rfl, rfl, next_item request item⟩
          · exact Or.inl (if_neg e)
      | _ => exact Or.inl rfl
    | _ => exact Or.inr ⟨by simp, Or.inl (by cases k <;> rfl)⟩
  | _ => exact Or.inr ⟨by simp, Or.inl (by cases k <;> rfl)⟩

theorem unmoved_of_seen (request : BoardMoveRequest) {k : Sight} (hk : k ≠ .unread) :
    Unmoved (statusMonitor request) k := by
  intro q hq
  cases k with
  | unread => exact absurd rfl hk
  | _ => cases q <;> first | exact ⟨trivial, fun _ _ => rfl⟩ | exact hq.elim

section
variable (request : BoardMoveRequest) (id : BoardItemId) (item : BoardItem) (freshClaim : Bool)

theorem keeps_releaseIf_written : (releaseIf freshClaim id request.session).Keeps
    (statusMonitor request) (fun _ _ => True) .written := by
  cases freshClaim with
  | false => trivial
  | true => exact ⟨trivial, fun _ _ => trivial⟩

theorem keeps_verifyWrite_written : (verifyWrite request id item freshClaim).Keeps
    (statusMonitor request) (fun _ _ => True) .written := by
  rw [verifyWrite, Calls.keeps_bind]
  apply (keeps_read (unmoved_of_seen request Sight.noConfusion) (q := .item id) trivial).mono
  intro r k hk
  subst hk
  cases r with
  | error => trivial
  | ok =>
    dsimp only
    split_ifs
    · trivial
    · unfold postWriteBookkeeping
      rw [Calls.keeps_bind]
      split_ifs
      · trivial
      · refine ⟨trivial, fun a _ => ?_⟩
        cases a <;> trivial
      · rw [Calls.keeps_bind]
        exact (keeps_releaseIf_written request id freshClaim).mono fun _ _ _ => trivial

theorem keeps_guardedWrite_read (hp : policyAllows (.of item.status) (.of request.status) = true) :
    (guardedWrite request request.item item freshClaim).Keeps (statusMonitor request)
      (fun _ _ => True) (.read item.status) := by
  refine ⟨⟨rfl, item.status, rfl, hp⟩, fun a _ => ?_⟩
  show Calls.Keeps (statusMonitor request) _ _ .written
  cases a with
  | ok => exact keeps_verifyWrite_written request request.item item freshClaim
  | error e =>
    cases e with
    | transport => trivial
    | _ =>
      show Calls.Keeps _ _ (releaseIf freshClaim request.item request.session >>= _) _
      rw [Calls.keeps_bind]
      exact (keeps_releaseIf_written request request.item freshClaim).mono fun _ _ _ => trivial

end

theorem keeps_execute_status (request : BoardMoveRequest) :
    (execute request).Keeps (statusMonitor request) (fun _ _ => True) .unread := by
  apply keeps_execute request (fun item => .read item.status)
  · trivial
  · exact fun item _ => next_item request item
  · exact fun _ => rfl
  · exact fun _ => unmoved_of_seen request Sight.noConfusion
  · exact fun _ _ _ => trivial
  · exact fun _ => ⟨trivial, fun _ => rfl⟩
  · intro item _ hp
    refine ⟨trivial, fun a => ?_⟩
    rcases a with e | ⟨_⟩ | ⟨_⟩ | ⟨_⟩ | ⟨_⟩
    · exact fun _ => trivial
    · exact keeps_guardedWrite_read request item true hp
    · exact keeps_guardedWrite_read request item false hp
    · exact fun _ => trivial
    · exact fun _ => trivial

/-! ## interleaved moves -/

section
variable {ι σ : Type} [DecidableEq ι]

abbrev Moves (ι σ : Type) := Pool ι (σ × LeaseRegistry) MoveCall.Answer MoveResult

def start (requests : ι → BoardMoveRequest) (s : σ) (leases : LeaseRegistry) : Moves ι σ :=
  Pool.start (s, leases) fun i => execute (requests i)

def NotWritten (log : List (Sigma MoveCall.Answer)) : Prop :=
  ∀ id status answer,
    (⟨.board (.setItemStatus id status), answer⟩ : Sigma MoveCall.Answer) ∉ log

/-- the invocation has read the status of its item and has not written it -/
def Pending (request : BoardMoveRequest) (log : List (Sigma MoveCall.Answer)) : Prop :=
  (∃ item, (⟨.board (.item request.item), .ok item⟩ : Sigma MoveCall.Answer) ∈ log) ∧
    NotWritten log

/-- `i` does not write a status that another invocation has read for a write to come -/
def Quiet (requests : ι → BoardMoveRequest) (p : Moves ι σ) (i : ι) : Prop :=
  ∀ id status, p.Asks i (.board (.setItemStatus id status)) →
    ∀ j, j ≠ i → (requests j).item = id → ¬ p.Ended j → ¬ Pending (requests j) (p.log j)

def WriteAllowed (held : σ → BoardItemId → Option String) (p : Moves ι σ) (i : ι) : Prop :=
  ∀ id status, p.Asks i (.board (.setItemStatus id status)) →
    ∃ current, held p.shared.1 id = some current ∧ policyAllows (.of current) (.of status) = true

def TerminalKept (env : Environment σ) (held : σ → BoardItemId → Option String) (p : Moves ι σ)
    (i : ι) : Prop :=
  ∀ id current, held p.shared.1 id = some current → (StatusClass.of current).isTerminal = true →
    held (p.step env.handle i).shared.1 id = some current

omit [DecidableEq ι] in
theorem quiet_of_idle {requests : ι → BoardMoveRequest} {p : Moves ι σ} {i : ι}
    (h : ∀ j, j ≠ i → p.Ended j ∨ p.log j = []) : Quiet requests p i := by
  intro _ _ _ j hne _ hended hpending
  rcases h j hne with h | h
  · exact hended h
  · obtain ⟨⟨item, hm⟩, -⟩ := hpending
    rw [h] at hm
    exact absurd hm (by simp)

/-- what is seen is what the item holds -/
def Current (held : σ → BoardItemId → Option String) (request : BoardMoveRequest) :
    Sight → σ × LeaseRegistry → Prop
  | .read seen, w => held w.1 request.item = some seen
  | _, _ => True

/-- what the log holds when this is seen -/
def LogOf (request : BoardMoveRequest) (log : List (Sigma MoveCall.Answer)) : Sight → Prop
  | .unread => NotWritten log
  | .read _ => Pending request log
  | .written => True

theorem logOf_concat {request : BoardMoveRequest} {log : List (Sigma MoveCall.Answer)} {k : Sight}
    (h : LogOf request log k) (e : Sigma MoveCall.Answer) :
    LogOf request (log ++ [e]) ((statusMonitor request).next k e.1 e.2) := by
  obtain ⟨q, a⟩ := e
  rcases next_cases request k q a with hn | ⟨hq, hn⟩
  · rw [hn]
    trivial
  · have hlog : NotWritten log → NotWritten (log ++ [⟨q, a⟩]) := by
      intro hw id status answer hm
      rcases List.mem_append.mp hm with hm | hm
      · exact hw id status answer hm
      · exact hq id status (congrArg Sigma.fst (List.mem_singleton.mp hm)).symm
    rcases hn with hn | ⟨item, he, hn⟩
    · rw [hn]
      cases k with
      | unread => exact hlog h
      | read =>
        obtain ⟨⟨item, hitem⟩, hw⟩ := h
        exact ⟨⟨item, List.mem_append_left _ hitem⟩, hlog hw⟩
      | written => trivial
    · rw [hn.2]
      have hw : NotWritten log := by
        rw [hn.1] at h
        exact h
      exact ⟨⟨item, List.mem_append_right _ (List.mem_singleton.mpr he.symm)⟩, hlog hw⟩

theorem pending_of_read {request : BoardMoveRequest} {log : List (Sigma MoveCall.Answer)}
    {seen : String} (h : (statusMonitor request).after .unread log = .read seen) :
    Pending request log := by
  have hlog : LogOf request log ((statusMonitor request).after .unread log) := by
    clear h
    induction log using List.reverseRecOn with
    | nil => exact fun _ _ _ hm => absurd hm (by simp)
    | append_singleton _ e ih =>
      rw [Calls.Monitor.after_concat]
      exact logOf_concat ih e
  rw [h] at hlog
  exact hlog

section
variable {env : Environment σ} {held : σ → BoardItemId → Option String}
  {requests : ι → BoardMoveRequest} {p : Moves ι σ} {i : ι}

theorem held_handle (law : HoldsStatuses env held) (request : BoardMoveRequest) {k : Sight}
    {q : MoveCall} (hp : (statusMonitor request).permits k q)
    (hq : ∀ id status, q ≠ .board (.setItemStatus id status)) (w : σ × LeaseRegistry) :
    held (env.handle w q).2.1 = held w.1 := by
  cases q with
  | board b =>
    have hb : IsGuardRead b := by
      cases b with
      | setItemStatus id status => exact absurd rfl (hq id status)
      | _ => exact hp
    exact law.read w.1 b hb
  | unixSecsNow | tryClaim => exact law.clock w.1
  | release => rfl

theorem current_own (law : HoldsStatuses env held) (request : BoardMoveRequest) (k : Sight)
    (w : σ × LeaseRegistry) (q : MoveCall) (hw : Current held request k w)
    (hp : (statusMonitor request).permits k q) :
    Current held request ((statusMonitor request).next k q (env.handle w q).1)
      (env.handle w q).2 := by
  rcases next_cases request k q (env.handle w q).1 with hn | ⟨hq, hn⟩
  · rw [hn]
    trivial
  · have hheld := held_handle law request hp hq w
    rcases hn with hn | ⟨item, he, hn⟩
    · rw [hn]
      cases k with
      | read => exact (congrFun hheld _).trans hw
      | _ => trivial
    · rw [hn.2]
      obtain ⟨rfl, ha⟩ := Sigma.mk.inj he
      exact (congrFun hheld _).trans (law.item w.1 _ item (eq_of_heq ha))

abbrev Sees (held : σ → BoardItemId → Option String) (requests : ι → BoardMoveRequest)
    (p : Moves ι σ) : Prop :=
  p.Watched (fun i => statusMonitor (requests i)) .unread fun i => Current held (requests i)

omit [DecidableEq ι] in
theorem asks_cases (law : HoldsStatuses env held) (hs : Sees held requests p) {q : MoveCall}
    (hasks : p.Asks i q) : (∃ id status, q = .board (.setItemStatus id status)) ∨
      held (env.handle p.shared q).2.1 = held p.shared.1 := by
  by_cases hq : ∃ id status, q = .board (.setItemStatus id status)
  · exact Or.inl hq
  · exact Or.inr (held_handle law (requests i) (hs.permits hasks).1
      (fun id status e => hq ⟨id, status, e⟩) p.shared)

theorem sees_step (law : HoldsStatuses env held) (hs : Sees held requests p)
    (hquiet : Quiet requests p i) : Sees held requests (p.step env.handle i) := by
  apply hs.step
  · exact fun k w q hw hp => ⟨trivial, current_own law (requests i) k w q hw hp⟩
  · intro q j hasks hne hj hw
    cases hk : p.known (fun i => statusMonitor (requests i)) .unread j with
    | read =>
      rw [hk] at hw
      rcases asks_cases law hs hasks with ⟨id, status, rfl⟩ | hheld
      · have hid : (requests j).item ≠ id := fun e =>
          hquiet id status hasks j hne e hj (pending_of_read hk)
        exact (law.write_other p.shared.1 id status _ hid).trans hw
      · exact (congrFun hheld _).trans hw
    | _ => trivial

omit [DecidableEq ι] in
theorem writeAllowed_of_sees (hs : Sees held requests p) : WriteAllowed held p i := by
  intro _ _ hasks
  obtain ⟨⟨rfl, seen, hk, hpolicy⟩, hw⟩ := hs.permits hasks
  rw [hk] at hw
  exact ⟨seen, hw, hpolicy⟩

theorem terminalKept_of_sees (law : HoldsStatuses env held) (hs : Sees held requests p) :
    TerminalKept env held p i := by
  intro id current hcurrent hterminal
  cases hprog : p.prog i with
  | ret r => rwa [Pool.step_ended ⟨r, hprog⟩]
  | call q f =>
    rw [Pool.step_call hprog]
    have hasks : p.Asks i q := ⟨f, hprog⟩
    rcases asks_cases law hs hasks with ⟨written, status, rfl⟩ | hheld
    · by_cases e : id = written
      · -- a write from a terminal status would not have been allowed
        subst e
        obtain ⟨c, hc, hpolicy⟩ := writeAllowed_of_sees hs id status hasks
        obtain rfl : c = current := Option.some.inj (hc.symm.trans hcurrent)
        exact absurd hpolicy (by simp [policyAllows_terminal hterminal])
      · exact (law.write_other p.shared.1 written status id e).trans hcurrent
    · exact (congrFun hheld id).trans hcurrent

end

/-- **Concurrent moves.**  In every interleaving of any number of invocations in which no status is
written while another invocation stands between its read of that status and its own write, every
write is an allowed transition from the status the item holds, and no item leaves a terminal one. -/
theorem quiet_moves_allowed (env : Environment σ) (held : σ → BoardItemId → Option String)
    (law : HoldsStatuses env held) (requests : ι → BoardMoveRequest) (s : σ)
    (leases : LeaseRegistry) (schedule : List ι)
    (hquiet : Pool.Along env.handle (Quiet requests) (start requests s leases) schedule) :
    Pool.Along env.handle (fun p i => WriteAllowed held p i ∧ TerminalKept env held p i)
      (start requests s leases) schedule := by
  have hstart : Sees held requests (start requests s leases) :=
    Pool.Watched.start (fun i => keeps_execute_status (requests i)) fun _ => trivial
  apply Pool.Along.of_invariant _ _ hstart hquiet
  · exact fun p i hs hq => sees_step law hs hq
  · exact fun p i hs _ => ⟨writeAllowed_of_sees hs, terminalKept_of_sees law hs⟩

end

/-! ## two moves of one item -/

def sampleBoard : BoardState where
  items := (∅ : OrdMap BoardItemId BoardItem).insert "i"
    { id := "i", itemType := .task, title := "", body := "", status := "In Progress" }
  statuses := [{ id := "status-0", name := "Done" }, { id := "status-1", name := "Blocked" }]
  fields := []
  fieldValues := ∅
  edges := ∅
  crossReferences := ∅
  nextId := 0

def rivals (pauses : Bool) : BoardMoveRequest where
  item := "i"
  status := if pauses then "Blocked" else "Done"
  session := if pauses then "b" else "a"
  leaseTtlSecs := 5
  fields := ∅
  edges := []

/-- the move to done runs to its end, the other one starts after it -/
theorem quiet_moves_allowed_rivals :
    Pool.Along (memoryBoard 10).handle
      (fun p i => WriteAllowed heldStatus p i ∧ TerminalKept (memoryBoard 10) heldStatus p i)
      (start rivals sampleBoard ∅) (List.replicate 7 false ++ List.replicate 2 true) := by
  have other : ∀ {i j : Bool}, j ≠ i → j = !i := by decide
  apply quiet_moves_allowed _ _ (memoryBoard_holdsStatuses 10)
  -- seven calls while the second move has not begun, two after the first has ended
  iterate 7
    refine ⟨quiet_of_idle fun j hj => ?_, ?_⟩
    · rw [other hj]
      exact Or.inr rfl
  iterate 2
    refine ⟨quiet_of_idle fun j hj => ?_, ?_⟩
    · rw [other hj]
      exact Or.inl ⟨_, rfl⟩
  trivial

/-- The pausing session reads the status and passes the policy; the other session then completes
the item and gives its lease back.  The pausing session claims the item and takes it out of
done. -/
theorem stale_status_reopens :
    let p := (start rivals sampleBoard ∅).run (memoryBoard 10).handle
      ([true, true] ++ List.replicate 7 false ++ [true, true])
    p.Asks true (.board (.setItemStatus "i" "Blocked")) ∧
    heldStatus p.shared.1 "i" = some "Done" ∧
    policyAllows (.of "Done") (.of "Blocked") = false ∧
    heldStatus (p.step (memoryBoard 10).handle true).shared.1 "i" = some "Blocked" := by
  refine ⟨⟨_, rfl⟩, by decide +kernel, rfl, by decide +kernel⟩

end Board.Move

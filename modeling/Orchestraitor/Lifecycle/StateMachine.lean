import Orchestraitor.Base.Ordered

/-!
# The replay-safe lifecycle machine (`orchestraitor-lifecycle/src/state_machine.rs`)

A session moves along a fixed table of edges.  Every applied move is recorded under the caller's
idempotency key, and a key that was used before is answered from the record.

* `Moves s rs t`               the records `rs` lead from `s` to `t` along allowed edges.
-/

namespace Lifecycle
open Base Std List

/-! ## states and edges -/

inductive SessionState where
  | queued | running | inputRequired | approvalRequired | authenticationRequired | paused
  | completed | failed | cancelled | rejected | orphaned
  deriving DecidableEq

open SessionState

def SessionState.isTerminal : SessionState → Bool
  | completed | failed | cancelled | rejected => true
  | _ => false

def transitionAllowed (source target : SessionState) : Bool :=
  match source with
  | queued => target ∈ [running, paused, cancelled, rejected]
  | running => target ∈ [inputRequired, approvalRequired, authenticationRequired, paused, completed,
      failed, cancelled, orphaned]
  | inputRequired | approvalRequired | authenticationRequired | paused =>
    target ∈ [running, cancelled, rejected]
  | orphaned => target ∈ [running, paused, failed, cancelled]
  | completed | failed | cancelled | rejected => false

def invalidReason : SessionState → String
  | queued => "queued tasks may run, pause, cancel, or be rejected before execution"
  | running => "running tasks may pause, wait, complete, fail, cancel, or orphan"
  | inputRequired | approvalRequired | authenticationRequired | paused =>
    "waiting tasks may resume, cancel, or be rejected"
  | orphaned => "orphaned tasks may resume, pause for reconnect, fail, or cancel"
  | completed | failed | cancelled | rejected => "terminal states cannot transition"

theorem not_terminal_of_allowed {s t : SessionState} (h : transitionAllowed s t = true) :
    s.isTerminal = false := by
  cases s <;> first | rfl | simp [transitionAllowed] at h

/-! ## records -/

structure TransitionAttempt where
  operationId : String
  idempotencyKey : String
  target : SessionState
  reason : String

structure TransitionRecord where
  operationId : String
  idempotencyKey : String
  source : SessionState
  target : SessionState
  reason : String
  deriving DecidableEq

structure LifecycleRecord where
  state : SessionState
  transitions : List TransitionRecord

def LifecycleRecord.new (state : SessionState) : LifecycleRecord := { state, transitions := [] }

inductive LifecycleError where
  | invalidTransition (source target : SessionState) (reason : String)
  | idempotencyConflict (key : String)
  deriving DecidableEq

/-! ## the machine -/

structure StateMachine where
  record : LifecycleRecord
  applied : OrdMap String TransitionRecord

def indexByKey (ts : List TransitionRecord) : OrdMap String TransitionRecord :=
  ts.foldl (fun m t => m.insert t.idempotencyKey t) ∅

namespace StateMachine

def fromRecord (record : LifecycleRecord) : StateMachine :=
  { record, applied := indexByKey record.transitions }

def queued : StateMachine := fromRecord (.new .queued)

def sameContent (record : TransitionRecord) (attempt : TransitionAttempt) : Bool :=
  record.operationId == attempt.operationId && record.target == attempt.target &&
    record.reason == attempt.reason

variable (m : StateMachine) (a : TransitionAttempt) (as : List TransitionAttempt)

def replay (attempt : TransitionAttempt) :
    Except LifecycleError TransitionRecord :=
  match m.applied[attempt.idempotencyKey]? with
  | none => .error (.idempotencyConflict attempt.idempotencyKey)
  | some record =>
    if sameContent record attempt then .ok record
    else .error (.idempotencyConflict attempt.idempotencyKey)

def validateTransition (source target : SessionState) : Except LifecycleError Unit :=
  if transitionAllowed source target then .ok ()
  else .error (.invalidTransition source target (invalidReason source))

def recordOf (source : SessionState) (attempt : TransitionAttempt) : TransitionRecord :=
  { operationId := attempt.operationId, idempotencyKey := attempt.idempotencyKey, source,
    target := attempt.target, reason := attempt.reason }

def push (record : TransitionRecord) : StateMachine :=
  { record := { state := record.target, transitions := m.record.transitions ++ [record] },
    applied := m.applied.insert record.idempotencyKey record }

def transition (attempt : TransitionAttempt) :
    Except LifecycleError TransitionRecord × StateMachine :=
  if m.applied.contains attempt.idempotencyKey then (m.replay attempt, m)
  else match validateTransition m.record.state attempt.target with
    | .error e => (.error e, m)
    | .ok () =>
      let record := recordOf m.record.state attempt
      (.ok record, m.push record)

def run (attempts : List TransitionAttempt) : StateMachine :=
  attempts.foldl (fun m a => (m.transition a).2) m

def answers (m : StateMachine) :
    List TransitionAttempt → List (Except LifecycleError TransitionRecord)
  | [] => []
  | a :: as => (m.transition a).1 :: (m.transition a).2.answers as

/-! ## what one call can do -/

theorem transition_cases : (∃ r, m.applied[a.idempotencyKey]? = some r ∧ m.transition a =
      (if sameContent r a then .ok r else .error (.idempotencyConflict a.idempotencyKey), m)) ∨
    (m.applied[a.idempotencyKey]? = none ∧ transitionAllowed m.record.state a.target = false ∧
      m.transition a = (.error (.invalidTransition m.record.state a.target
        (invalidReason m.record.state)), m)) ∨
    (m.applied[a.idempotencyKey]? = none ∧ transitionAllowed m.record.state a.target = true ∧
      m.transition a = (.ok (recordOf m.record.state a), m.push (recordOf m.record.state a))) := by
  have hc : m.applied.contains a.idempotencyKey = (m.applied[a.idempotencyKey]?).isSome :=
    ExtTreeMap.contains_eq_isSome_getElem?
  rw [transition, hc, replay]
  cases hk : m.applied[a.idempotencyKey]? with
  | some r => exact Or.inl ⟨r, rfl, by simp⟩
  | none =>
    right
    rw [validateTransition]
    cases ht : transitionAllowed m.record.state a.target with
    | false => exact Or.inl ⟨rfl, rfl, by simp⟩
    | true => exact Or.inr ⟨rfl, rfl, by simp⟩

theorem run_cons : m.run (a :: as) = (m.transition a).2.run as := rfl

theorem run_append (bs : List TransitionAttempt) :
    m.run (as ++ bs) = (m.run as).run bs := foldl_append

theorem prefix_transition : m.record.transitions <+: (m.transition a).2.record.transitions := by
  obtain ⟨r, _, h⟩ | ⟨_, _, h⟩ | ⟨_, _, h⟩ := m.transition_cases a
  · rw [h]
  · rw [h]
  · rw [h]
    exact prefix_append _ _

theorem prefix_run : m.record.transitions <+: (m.run as).record.transitions := by
  induction as generalizing m with
  | nil => exact prefix_rfl
  | cons a _ ih => exact (m.prefix_transition a).trans (ih _)

end StateMachine

/-! ## the index -/

theorem indexByKey_concat (ts : List TransitionRecord) (t : TransitionRecord) :
    indexByKey (ts ++ [t]) = (indexByKey ts).insert t.idempotencyKey t := by
  rw [indexByKey, foldl_append]
  rfl

theorem mem_of_indexByKey {ts : List TransitionRecord} {k : String} {r : TransitionRecord}
    (h : (indexByKey ts)[k]? = some r) : r ∈ ts ∧ r.idempotencyKey = k := by
  induction ts using reverseRecOn with
  | nil => exact absurd h (by simp [indexByKey])
  | append_singleton _ _ ih =>
    rw [indexByKey_concat, OrdMap.get_insert] at h
    split_ifs at h with e
    · obtain rfl := Option.some.inj h
      exact ⟨by simp, e.symm⟩
    · exact ⟨mem_append_left _ (ih h).1, (ih h).2⟩

theorem indexByKey_of_mem {ts : List TransitionRecord} {r : TransitionRecord}
    (hn : (ts.map (·.idempotencyKey)).Nodup) (h : r ∈ ts) :
    (indexByKey ts)[r.idempotencyKey]? = some r := by
  induction ts using reverseRecOn with
  | nil => exact absurd h (by simp)
  | append_singleton _ t ih =>
    rw [map_append, nodup_append] at hn
    rw [indexByKey_concat, OrdMap.get_insert]
    rcases mem_append.mp h with h' | h'
    · -- an older record has another key
      have hne : r.idempotencyKey ≠ t.idempotencyKey :=
        hn.2.2 _ (mem_map_of_mem h') _ (by simp)
      rw [if_neg hne]
      exact ih hn.1 h'
    · obtain rfl := mem_singleton.mp h'
      rw [if_pos rfl]

/-! ## what every run keeps -/

def Moves : SessionState → List TransitionRecord → SessionState → Prop
  | s, [], t => s = t
  | s, r :: rs, t => r.source = s ∧ transitionAllowed r.source r.target = true ∧ Moves r.target rs t

theorem Moves.concat {s t : SessionState} {rs : List TransitionRecord} {r : TransitionRecord}
    (h : Moves s rs t) (hs : r.source = t) (hr : transitionAllowed r.source r.target = true) :
    Moves s (rs ++ [r]) r.target := by
  induction rs generalizing s with
  | nil =>
    have e : s = t := h
    exact ⟨hs.trans e.symm, hr, rfl⟩
  | cons _ _ ih => exact ⟨h.1, h.2.1, ih h.2.2⟩

theorem Moves.allowed {s t : SessionState} {rs : List TransitionRecord} (h : Moves s rs t) :
    ∀ r ∈ rs, transitionAllowed r.source r.target = true := by
  induction rs generalizing s with
  | nil => simp
  | cons _ _ ih =>
    intro r hr
    rcases mem_cons.mp hr with rfl | hr
    · exact h.2.1
    · exact ih h.2.2 r hr

/-- a machine started in `s`: its record is a chain of moves with distinct keys, and it holds
nothing besides its record -/
structure Durable (s : SessionState) (m : StateMachine) : Prop where
  moves : Moves s m.record.transitions m.record.state
  keys : (m.record.transitions.map (·.idempotencyKey)).Nodup
  rebuilt : StateMachine.fromRecord m.record = m

namespace Durable
open StateMachine

theorem new (s : SessionState) : Durable s (fromRecord (.new s)) := ⟨rfl, nodup_nil, rfl⟩

variable {s : SessionState} {m : StateMachine}

theorem applied_eq (h : Durable s m) : m.applied = indexByKey m.record.transitions :=
  (congrArg StateMachine.applied h.rebuilt).symm

theorem transition (h : Durable s m) (a : TransitionAttempt) : Durable s (m.transition a).2 := by
  obtain ⟨r, _, e⟩ | ⟨_, _, e⟩ | ⟨hk, ht, e⟩ := m.transition_cases a
  · rw [e]; exact h
  · rw [e]; exact h
  · rw [e]
    refine ⟨h.moves.concat rfl ht, ?_, ?_⟩
    · -- an unused key is not among the keys of the record
      show ((m.record.transitions ++ [recordOf m.record.state a]).map (·.idempotencyKey)).Nodup
      rw [map_append]
      refine nodup_append.mpr ⟨h.keys, by simp, fun k hk' k' hk'' e => ?_⟩
      obtain ⟨r, hr, rfl⟩ := mem_map.mp hk'
      have hget := indexByKey_of_mem h.keys hr
      rw [← h.applied_eq, e, mem_singleton.mp hk''] at hget
      exact absurd (hk.symm.trans hget) (by simp)
    · show StateMachine.mk _ (indexByKey (m.record.transitions ++ [_])) = m.push _
      rw [indexByKey_concat, ← h.applied_eq]
      rfl

theorem run (h : Durable s m) (as : List TransitionAttempt) : Durable s (m.run as) := by
  induction as generalizing m with
  | nil => exact h
  | cons a _ ih => exact ih (h.transition a)

theorem transition_used (h : Durable s m) {r : TransitionRecord} (hr : r ∈ m.record.transitions)
    {a : TransitionAttempt} (hk : r.idempotencyKey = a.idempotencyKey) : m.transition a =
      (if sameContent r a then .ok r else .error (.idempotencyConflict a.idempotencyKey), m) := by
  have hget : m.applied[a.idempotencyKey]? = some r := by
    rw [h.applied_eq, ← hk]
    exact indexByKey_of_mem h.keys hr
  obtain ⟨q, hq, e⟩ | ⟨hn, _⟩ | ⟨hn, _⟩ := m.transition_cases a
  · obtain rfl := Option.some.inj (hq.symm.trans hget)
    exact e
  · exact absurd (hn.symm.trans hget) (by simp)
  · exact absurd (hn.symm.trans hget) (by simp)

theorem recorded (h : Durable s m) {a : TransitionAttempt} {r : TransitionRecord}
    (hok : (m.transition a).1 = .ok r) :
    r ∈ (m.transition a).2.record.transitions ∧ r.idempotencyKey = a.idempotencyKey ∧
      sameContent r a = true := by
  obtain ⟨q, hq, e⟩ | ⟨_, _, e⟩ | ⟨_, _, e⟩ := m.transition_cases a
  · rw [e] at hok ⊢
    split_ifs at hok with hc
    obtain rfl := Except.ok.inj hok
    rw [h.applied_eq] at hq
    exact ⟨(mem_of_indexByKey hq).1, (mem_of_indexByKey hq).2, hc⟩
  · rw [e] at hok
    exact absurd hok (by simp)
  · rw [e] at hok ⊢
    obtain rfl := Except.ok.inj hok
    exact ⟨by simp [push], rfl, by simp [sameContent, recordOf]⟩

end Durable

open StateMachine in
/-- **Replay safety.**  After any calls on a machine started in `initial`: the record is a chain of
allowed moves with distinct keys that never leaves a terminal state; an accepted attempt made again
returns the same record; a used key with other content and a disallowed edge change nothing; and
the machine rebuilt from the record answers every further sequence of calls as this one does. -/
theorem transitions_replay_safe (initial : SessionState) (calls : List TransitionAttempt) :
    let m := (fromRecord (.new initial)).run calls
    (Moves initial m.record.transitions m.record.state ∧
      (m.record.transitions.map (·.idempotencyKey)).Nodup) ∧
    (∀ r ∈ m.record.transitions, r.source.isTerminal = false) ∧
    (∀ pre a post r, calls = pre ++ a :: post →
      (((fromRecord (.new initial)).run pre).transition a).1 = .ok r →
        m.transition a = (.ok r, m)) ∧
    (∀ a, ∀ r ∈ m.record.transitions, r.idempotencyKey = a.idempotencyKey →
      (r.operationId, r.target, r.reason) ≠ (a.operationId, a.target, a.reason) →
        m.transition a = (.error (.idempotencyConflict a.idempotencyKey), m)) ∧
    (∀ a, transitionAllowed m.record.state a.target = false → (m.transition a).2 = m) ∧
    (∀ further, (fromRecord m.record).answers further = m.answers further ∧
      (fromRecord m.record).run further = m.run further) := by
  intro m
  have hm : Durable initial m := (Durable.new initial).run calls
  refine ⟨⟨hm.moves, hm.keys⟩, ?_, ?_, ?_, ?_, ?_⟩
  · intro r hr
    exact not_terminal_of_allowed (hm.moves.allowed r hr)
  · intro pre a post r hsplit hok
    have hpre : Durable initial ((fromRecord (.new initial)).run pre) :=
      (Durable.new initial).run pre
    obtain ⟨hr, hk, hc⟩ := hpre.recorded hok
    have hlast : m = (((fromRecord (.new initial)).run pre).transition a).2.run post := by
      show (fromRecord (.new initial)).run calls = _
      rw [hsplit, run_append, run_cons]
    have hmem : r ∈ m.record.transitions := by
      rw [hlast]
      exact (prefix_run _ post).subset hr
    rw [hm.transition_used hmem hk, if_pos hc]
  · intro a r hr hk hne
    rw [hm.transition_used hr hk, if_neg]
    intro hc
    simp only [sameContent, Bool.and_eq_true, beq_iff_eq] at hc
    exact hne (by rw [hc.1.1, hc.1.2, hc.2])
  · intro a hd
    obtain ⟨r, _, e⟩ | ⟨_, _, e⟩ | ⟨_, ht, _⟩ := m.transition_cases a
    · rw [e]
    · rw [e]
    · exact absurd (hd.symm.trans ht) (by simp)
  · intro _
    rw [hm.rebuilt]
    exact ⟨rfl, rfl⟩

end Lifecycle

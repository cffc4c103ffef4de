import Orchestraitor.Daemon.Retry

/-!
# What the circuit breaker guarantees

`Guards` states what the breaker is for, over the history of one provider: after enough consecutive failures
nobody is let through for the recovery time, then one request at a time.  `Tracks` is the invariant of a
breaker with its history.  It is kept by every step that is `Calm`: no check while the breaker is half-open,
and no late outcome that changes the state of an open or half-open breaker.
-/

namespace Daemon
open Base Base.Calls List

/-! ## histories -/

variable (l : List Event)

def failures : Nat :=
  l.foldl (fun n e => match e.kind with
    | .failed => n + 1
    | .succeeded => 0
    | .admitted | .refused => n) 0

theorem failures_concat (e : Event) : failures (l ++ [e]) =
    match e.kind with
    | .failed => failures l + 1
    | .succeeded => 0
    | .admitted | .refused => failures l := by
  unfold failures
  rw [foldl_append]
  rfl

/-- the outcome of `r` -/
def Event.IsOutcomeOf (e : Event) (r : Request) : Prop :=
  e.request = r ∧ (e.kind = .succeeded ∨ e.kind = .failed)

section guards
variable (threshold timeout : Nat)

/-- a failure at `t` was the last of at least `threshold` consecutive ones -/
def Tripped (l : List Event) (t : Nat) : Prop :=
  Since (fun pre f => f.kind = .failed ∧ threshold ≤ failures (pre ++ [f]) ∧ f.time = t)
    (fun _ _ => True) l

/-- `r` was let through after `threshold` failures without a success, and its outcome is not recorded -/
def Pending (l : List Event) (r : Request) : Prop :=
  Since (fun pre a => a.kind = .admitted ∧ threshold ≤ failures pre ∧ a.request = r)
    (fun _ o => ¬ o.IsOutcomeOf r) l

/-- what a breaker is for: no request while it is open, and one probe at a time -/
structure Guards (l : List Event) : Prop where
  blocks : EachSplit (fun pre a => a.kind = .admitted →
    ∀ t, Tripped threshold pre t → t + timeout ≤ a.time) l
  probes : EachSplit (fun pre a => a.kind = .admitted → ∀ r, ¬ Pending threshold pre r) l
  /-- only failures make it refuse, so a success lets requests through again -/
  refuses : EachSplit (fun pre e => e.kind = .refused → threshold ≤ failures pre) l

end guards

section
variable {threshold timeout : Nat} {l : List Event} {e : Event} {t : Nat} {r : Request}

theorem tripped_concat : Tripped threshold (l ++ [e]) t ↔
    (e.kind = .failed ∧ threshold ≤ failures l + 1 ∧ e.time = t) ∨ Tripped threshold l t := by
  unfold Tripped
  rw [since_concat, and_true]
  refine or_congr_left (and_congr_right fun hk => ?_)
  rw [failures_concat, hk]

theorem pending_concat : Pending threshold (l ++ [e]) r ↔
    (e.kind = .admitted ∧ threshold ≤ failures l ∧ e.request = r) ∨
      (Pending threshold l r ∧ ¬ e.IsOutcomeOf r) :=
  since_concat

theorem guards_nil : Guards threshold timeout [] := ⟨.nil _, .nil _, .nil _⟩

theorem Guards.outcome (h : Guards threshold timeout l) (ha : e.kind ≠ .admitted)
    (hr : e.kind ≠ .refused) : Guards threshold timeout (l ++ [e]) :=
  { blocks := h.blocks.concat fun hk => absurd hk ha
    probes := h.probes.concat fun hk => absurd hk ha
    refuses := h.refuses.concat fun hk => absurd hk hr }

theorem Guards.admit (h : Guards threshold timeout l) (hk : e.kind = .admitted)
    (hblocks : ∀ t, Tripped threshold l t → t + timeout ≤ e.time)
    (hprobes : ∀ r, ¬ Pending threshold l r) : Guards threshold timeout (l ++ [e]) :=
  { blocks := h.blocks.concat fun _ => hblocks
    probes := h.probes.concat fun _ => hprobes
    refuses := h.refuses.concat fun hr => by rw [hk] at hr; cases hr }

theorem Guards.refuse (h : Guards threshold timeout l) (hk : e.kind = .refused)
    (hfailures : threshold ≤ failures l) : Guards threshold timeout (l ++ [e]) :=
  { blocks := h.blocks.concat fun ha => by rw [hk] at ha; cases ha
    probes := h.probes.concat fun ha => by rw [hk] at ha; cases ha
    refuses := h.refuses.concat fun _ => hfailures }

end

/-! ## the invariant -/

def lastAdmitted : Option Request :=
  (l.reverse.find? fun e => e.kind = .admitted).map (·.request)

theorem lastAdmitted_concat (e : Event) : lastAdmitted (l ++ [e]) =
    if e.kind = .admitted then some e.request else lastAdmitted l := by
  unfold lastAdmitted
  by_cases hk : e.kind = .admitted
  · simp [hk]
  · simp [hk]

def CircuitState.isOpened : CircuitState → Bool
  | .opened _ => true
  | .closed | .halfOpen => false

/-- what the state of a breaker says about its history -/
def StateTracks (b : CircuitBreaker) (l : List Event) (now : Nat) : Prop :=
  match b.state with
  | .closed => failures l < b.failureThreshold ∧
      (∀ t, Tripped b.failureThreshold l t → t + b.recoveryTimeout ≤ now) ∧
      ∀ r, ¬ Pending b.failureThreshold l r
  | .opened openedAt => b.failureThreshold ≤ failures l ∧ openedAt ≤ now ∧
      (∀ t, Tripped b.failureThreshold l t → t ≤ openedAt) ∧
      ∀ r, ¬ Pending b.failureThreshold l r
  | .halfOpen => b.failureThreshold ≤ failures l ∧
      (∀ t, Tripped b.failureThreshold l t → t + b.recoveryTimeout ≤ now) ∧
      ∀ r, Pending b.failureThreshold l r → lastAdmitted l = some r

/-- a breaker of the scheduler with its history -/
structure Tracks (b : CircuitBreaker) (l : List Event) (now : Nat) : Prop where
  threshold : b.failureThreshold = defaultCircuitFailureThreshold
  timeout : b.recoveryTimeout = defaultCircuitRecoveryTimeout
  count : b.consecutiveFailures = min (failures l) u32Max
  guards : Guards b.failureThreshold b.recoveryTimeout l
  state : StateTracks b l now

theorem Tracks.fresh (now : Nat) : Tracks freshBreaker [] now := by
  have hnone : ∀ (P Q : List Event → Event → Prop), ¬ Since P Q [] := by
    intro P Q ⟨pre, e, post, heq, _⟩
    simp at heq
  exact { threshold := rfl, timeout := rfl, count := by decide, guards := guards_nil
          state := ⟨by decide, fun t ht => absurd ht (hnone _ _), fun r => hnone _ _⟩ }

variable {b : CircuitBreaker} {l : List Event} {now : Nat}

theorem Tracks.positive (h : Tracks b l now) : 0 < b.failureThreshold := by
  rw [h.threshold]
  decide

theorem Tracks.fits (h : Tracks b l now) : b.failureThreshold ≤ u32Max := by
  rw [h.threshold]
  decide

theorem Tracks.later {now' : Nat} (h : Tracks b l now) (hle : now ≤ now') : Tracks b l now' := by
  refine { h with state := ?_ }
  have hs := h.state
  unfold StateTracks at hs ⊢
  split at hs
  · exact ⟨hs.1, fun t ht => (hs.2.1 t ht).trans hle, hs.2.2⟩
  · exact ⟨hs.1, hs.2.1.trans hle, hs.2.2⟩
  · exact ⟨hs.1, fun t ht => (hs.2.1 t ht).trans hle, hs.2.2⟩

section steps
variable {b : CircuitBreaker} {l : List Event} {now : Nat} {r : Request}

theorem tripped_of_check {threshold : Nat} {e : Event} {t : Nat} (hk : e.kind ≠ .failed)
    (h : Tripped threshold (l ++ [e]) t) : Tripped threshold l t :=
  (tripped_concat.mp h).resolve_left fun hf => hk hf.1

theorem Tracks.admit (h : Tracks b l now) (hb : b.state = .closed) :
    Tracks b (l ++ [⟨now, r, .admitted⟩]) now := by
  have hs := h.state
  rw [StateTracks, hb] at hs
  obtain ⟨hfew, hrested, hnone⟩ := hs
  have hfailures : failures (l ++ [⟨now, r, .admitted⟩]) = failures l := failures_concat l _
  refine { h with count := by rw [hfailures, h.count], guards := h.guards.admit rfl hrested hnone
                  state := ?_ }
  rw [StateTracks, hb]
  refine ⟨by rwa [hfailures], fun t ht => hrested t (tripped_of_check (by simp) ht), fun r' hp => ?_⟩
  rcases pending_concat.mp hp with ⟨_, hmany, _⟩ | ⟨hp, _⟩
  · exact absurd hmany (Nat.not_le.mpr hfew)
  · exact hnone r' hp

theorem Tracks.probe (h : Tracks b l now) {openedAt : Nat} (hb : b.state = .opened openedAt)
    (hle : b.recoveryTimeout ≤ now - openedAt) :
    Tracks { b with state := .halfOpen } (l ++ [⟨now, r, .admitted⟩]) now := by
  have hs := h.state
  rw [StateTracks, hb] at hs
  obtain ⟨hmany, hnow, hlast, hnone⟩ := hs
  have hrested : ∀ t, Tripped b.failureThreshold l t → t + b.recoveryTimeout ≤ now := by
    intro t ht
    have := hlast t ht
    omega
  have hfailures : failures (l ++ [⟨now, r, .admitted⟩]) = failures l := failures_concat l _
  refine { threshold := h.threshold, timeout := h.timeout, count := by rw [hfailures]; exact h.count
           guards := h.guards.admit rfl hrested hnone, state := ?_ }
  refine ⟨by rwa [hfailures], fun t ht => hrested t (tripped_of_check (by simp) ht), fun r' hp => ?_⟩
  rw [lastAdmitted_concat]
  rcases pending_concat.mp hp with ⟨_, _, hr⟩ | ⟨hp, _⟩
  · exact congrArg some hr
  · exact absurd hp (hnone r')

theorem Tracks.refuse (h : Tracks b l now) {openedAt : Nat} (hb : b.state = .opened openedAt) :
    Tracks b (l ++ [⟨now, r, .refused⟩]) now := by
  have hs := h.state
  rw [StateTracks, hb] at hs
  obtain ⟨hmany, hnow, hlast, hnone⟩ := hs
  have hfailures : failures (l ++ [⟨now, r, .refused⟩]) = failures l := failures_concat l _
  refine { h with count := by rw [hfailures, h.count], guards := h.guards.refuse rfl hmany
                  state := ?_ }
  rw [StateTracks, hb]
  refine ⟨by rwa [hfailures], hnow, fun t ht => hlast t (tripped_of_check (by simp) ht),
    fun r' hp => ?_⟩
  rcases pending_concat.mp hp with ⟨hk, _⟩ | ⟨hp, _⟩
  · cases hk
  · exact hnone r' hp

theorem Tracks.check (h : Tracks b l now) (hstate : b.state ≠ .halfOpen) : Tracks (b.allows now).2
      (l ++ [⟨now, r, if (b.allows now).1 then .admitted else .refused⟩]) now := by
  cases hb : b.state with
  | halfOpen => exact absurd hb hstate
  | closed =>
    have hallows : b.allows now = (true, b) := by rw [CircuitBreaker.allows, hb]
    rw [hallows]
    exact h.admit hb
  | opened openedAt =>
    by_cases hle : b.recoveryTimeout ≤ now - openedAt
    · have hallows : b.allows now = (true, { b with state := .halfOpen }) := by
        simp only [CircuitBreaker.allows, hb, if_pos hle]
      rw [hallows]
      exact h.probe hb hle
    · have hallows : b.allows now = (false, b) := by
        simp only [CircuitBreaker.allows, hb, if_neg hle]
      rw [hallows]
      exact h.refuse hb

theorem Tracks.pending_eq (h : Tracks b l now) (hr : b.state = .halfOpen → lastAdmitted l = some r)
    {r' : Request} (hp : Pending b.failureThreshold l r') : r' = r := by
  have hs := h.state
  rw [StateTracks] at hs
  split at hs
  · exact absurd hp (hs.2.2 r')
  · exact absurd hp (hs.2.2.2 r')
  · rename_i hb
    exact Option.some.inj ((hs.2.2 r' hp).symm.trans (hr hb))

theorem Tracks.settled (h : Tracks b l now) (hr : b.state = .halfOpen → lastAdmitted l = some r)
    {kind : EventKind} (hk : kind = .succeeded ∨ kind = .failed) (r' : Request) :
    ¬ Pending b.failureThreshold (l ++ [⟨now, r, kind⟩]) r' := by
  intro hp
  rcases pending_concat.mp hp with ⟨ha, _⟩ | ⟨hp, hout⟩
  · have ha : kind = .admitted := ha
    rcases hk with rfl | rfl <;> cases ha
  · exact hout ⟨(h.pending_eq hr hp).symm, hk⟩

theorem Tracks.success (h : Tracks b l now) (hopen : b.state.isOpened = false)
    (hr : b.state = .halfOpen → lastAdmitted l = some r) :
    Tracks b.recordSuccess (l ++ [⟨now, r, .succeeded⟩]) now := by
  have hrested : ∀ t, Tripped b.failureThreshold l t → t + b.recoveryTimeout ≤ now := by
    have hs := h.state
    rw [StateTracks] at hs
    split at hs
    · exact hs.2.1
    · rename_i t hb
      rw [hb] at hopen
      cases hopen
    · exact hs.2.1
  have hfailures : failures (l ++ [⟨now, r, .succeeded⟩]) = 0 := failures_concat l _
  exact { threshold := h.threshold, timeout := h.timeout, count := by rw [hfailures]; rfl
          guards := h.guards.outcome (by simp) (by simp)
          state := ⟨hfailures.trans_lt h.positive,
            fun t ht => hrested t (tripped_of_check (by simp) ht), h.settled hr (.inl rfl)⟩ }

theorem Tracks.threshold_iff (h : Tracks b l now) :
    b.failureThreshold ≤ satAdd32 b.consecutiveFailures 1 ↔ b.failureThreshold ≤ failures l + 1 := by
  have := h.fits
  rw [satAdd32, h.count]
  omega

theorem Tracks.tripped_le (h : Tracks b l now) {t : Nat} (ht : Tripped b.failureThreshold l t) :
    t ≤ now := by
  have hs := h.state
  rw [StateTracks] at hs
  split at hs
  · exact (Nat.le_add_right _ _).trans (hs.2.1 t ht)
  · exact (hs.2.2.1 t ht).trans hs.2.1
  · exact (Nat.le_add_right _ _).trans (hs.2.1 t ht)

theorem Tracks.failure (h : Tracks b l now) (hr : b.state = .halfOpen → lastAdmitted l = some r) :
    Tracks (b.recordFailure now) (l ++ [⟨now, r, .failed⟩]) now := by
  have hfailures : failures (l ++ [⟨now, r, .failed⟩]) = failures l + 1 := failures_concat l _
  have hcount : satAdd32 b.consecutiveFailures 1 = min (failures l + 1) u32Max := by
    rw [satAdd32, h.count]
    omega
  have hguards := h.guards.outcome (e := ⟨now, r, .failed⟩) (by simp) (by simp)
  have hsettled := h.settled hr (.inr rfl)
  by_cases hle : b.failureThreshold ≤ satAdd32 b.consecutiveFailures 1
  · rw [CircuitBreaker.recordFailure, if_pos hle]
    refine { threshold := h.threshold, timeout := h.timeout, count := by rw [hfailures]; exact hcount
             guards := hguards, state := ⟨?_, le_refl now, fun t ht => ?_, hsettled⟩ }
    · rw [hfailures]
      exact h.threshold_iff.mp hle
    · rcases tripped_concat.mp ht with ⟨_, _, rfl⟩ | ht
      · exact le_refl now
      · exact h.tripped_le ht
  · rw [CircuitBreaker.recordFailure, if_neg hle]
    have hfew : ¬ b.failureThreshold ≤ failures l + 1 := fun hc => hle (h.threshold_iff.mpr hc)
    refine { threshold := h.threshold, timeout := h.timeout, count := by rw [hfailures]; exact hcount
             guards := hguards, state := ?_ }
    -- with so few failures the breaker is closed
    have hs := h.state
    rw [StateTracks] at hs ⊢
    split at hs
    · rename_i hb
      dsimp only
      rw [hb]
      refine ⟨by rw [hfailures]; omega, fun t ht => ?_, hsettled⟩
      exact hs.2.1 t ((tripped_concat.mp ht).resolve_left fun hf => hfew hf.2.1)
    · exact absurd (hs.1.trans (Nat.le_succ _)) hfew
    · exact absurd (hs.1.trans (Nat.le_succ _)) hfew

end steps

/-! ## whole schedules -/

variable {W T : Type}

def Scheduler.about (s : Scheduler W) (provider : String) : List Event :=
  s.history.filter fun e => e.request.provider = provider

/-- no check while the breaker is half-open, no success while it is open, and while it is half-open no
outcome but that of the request let through -/
def CalmCall (provider : String) (s : Scheduler W) : RetryQuery → Prop
  | .breakerAllows request => request.provider = provider → (s.breakerOf provider).state ≠ .halfOpen
  | .recordSuccess request => request.provider = provider →
      (s.breakerOf provider).state.isOpened = false ∧
      ((s.breakerOf provider).state = .halfOpen → lastAdmitted (s.about provider) = some request)
  | .recordFailure request => request.provider = provider →
      (s.breakerOf provider).state = .halfOpen → lastAdmitted (s.about provider) = some request
  | .operation _ | .backoff _ _ => True

instance (provider : String) (s : Scheduler W) : (q : RetryQuery) → Decidable (CalmCall provider s q)
  | .breakerAllows _ => inferInstanceAs (Decidable (_ → _ ≠ _))
  | .recordSuccess _ => inferInstanceAs (Decidable (_ → _ = _ ∧ (_ = _ → _ = _)))
  | .recordFailure _ => inferInstanceAs (Decidable (_ → _ = _ → _ = _))
  | .operation _ => inferInstanceAs (Decidable True)
  | .backoff _ _ => inferInstanceAs (Decidable True)

section serve
variable {s : Scheduler W} {provider : String} {now : Nat} {r : Request}

theorem about_log (k : EventKind) : (s.log now r k).about provider =
    if r.provider = provider then s.about provider ++ [⟨now, r, k⟩] else s.about provider := by
  unfold Scheduler.about Scheduler.log
  by_cases h : r.provider = provider
  · simp [h]
  · simp [h]

@[simp] theorem breakerOf_log (k : EventKind) :
    (s.log now r k).breakerOf provider = s.breakerOf provider := rfl

theorem breakerOf_store (p : String) (b : CircuitBreaker) : (s.store p b).breakerOf provider =
    if p = provider then b else s.breakerOf provider := by
  unfold Scheduler.breakerOf Scheduler.store
  by_cases h : p = provider
  · subst h
    simp
  · simp [h, Function.update_of_ne (Ne.symm h)]

def Sound (line : Timeline W T) (provider : String) (s : Scheduler W) : Prop :=
  Tracks (s.breakerOf provider) (s.about provider) (line.now s.world)

theorem tracks_store_log {b : CircuitBreaker} {k : EventKind}
    (h : Tracks (s.breakerOf provider) (s.about provider) now)
    (hown : r.provider = provider → Tracks b (s.about provider ++ [⟨now, r, k⟩]) now) :
    Tracks (((s.store r.provider b).log now r k).breakerOf provider)
      (((s.store r.provider b).log now r k).about provider) now := by
  rw [breakerOf_log, breakerOf_store, about_log]
  by_cases hp : r.provider = provider
  · rw [if_pos hp, if_pos hp]
    exact hown hp
  · rw [if_neg hp, if_neg hp]
    exact h

/-- every calm call keeps the breaker sound; outcomes are recorded for breakers that exist -/
theorem Sound.serve {line : Timeline W T} (h : Sound line provider s) (q : RetryQuery)
    (hcalm : CalmCall provider s q) (hentered : ∀ r, q = .recordSuccess r ∨ q = .recordFailure r →
      (s.breakers r.provider).isSome = true) : Sound line provider (serve line s q).2 := by
  have hlater := line.monotone s.world q
  cases q with
  | breakerAllows =>
    refine (show Tracks _ _ (line.now s.world) from ?_).later hlater
    refine tracks_store_log h fun hp => ?_
    subst hp
    exact h.check (hcalm rfl)
  | operation => exact Tracks.later h hlater
  | recordSuccess r =>
    refine (show Tracks _ _ (line.now s.world) from ?_).later hlater
    obtain ⟨b, hb⟩ := Option.isSome_iff_exists.mp (hentered r (.inl rfl))
    dsimp only [Daemon.serve]
    rw [Scheduler.recordSuccess, hb]
    refine tracks_store_log h fun hp => ?_
    subst hp
    have hof : s.breakerOf r.provider = b := by rw [Scheduler.breakerOf, hb]; rfl
    rw [← hof]
    exact h.success (hcalm rfl).1 (hcalm rfl).2
  | recordFailure r =>
    refine (show Tracks _ _ (line.now s.world) from ?_).later hlater
    obtain ⟨b, hb⟩ := Option.isSome_iff_exists.mp (hentered r (.inr rfl))
    dsimp only [Daemon.serve]
    rw [Scheduler.recordFailure, hb]
    refine tracks_store_log h fun hp => ?_
    subst hp
    have hof : s.breakerOf r.provider = b := by rw [Scheduler.breakerOf, hb]; rfl
    rw [← hof]
    exact h.failure (hcalm rfl)
  | backoff => exact Tracks.later h hlater

theorem serve_isSome (line : Timeline W T) (q : RetryQuery)
    (h : (s.breakers provider).isSome = true) :
    ((Daemon.serve line s q).2.breakers provider).isSome = true := by
  have hstore : ∀ (p : String) (b : CircuitBreaker),
      ((s.store p b).breakers provider).isSome = true := by
    intro p b
    by_cases hp : provider = p
    · subst hp
      simp [Scheduler.store]
    · simpa [Scheduler.store, Function.update_of_ne hp] using h
  cases q with
  | breakerAllows => exact hstore _ _
  | operation => exact h
  | recordSuccess r =>
    show ((s.recordSuccess (line.now s.world) r).breakers provider).isSome = true
    unfold Scheduler.recordSuccess
    split
    · exact hstore _ _
    · exact h
  | recordFailure r =>
    show ((s.recordFailure (line.now s.world) r).breakers provider).isSome = true
    unfold Scheduler.recordFailure
    split
    · exact hstore _ _
    · exact h
  | backoff => exact h

end serve

abbrev RetryPool (W T : Type) := Pool Nat (Scheduler W) (RetryAnswer T) (Except GovernanceError T)

/-- the next call of `i` is calm -/
def Calm (provider : String) (p : RetryPool W T) (i : Nat) : Prop :=
  match p.prog i with
  | .ret _ => True
  | .call q _ => CalmCall provider p.shared q

instance (provider : String) (p : RetryPool W T) (i : Nat) : Decidable (Calm provider p i) := by
  unfold Calm
  exact match p.prog i with
    | .ret _ => inferInstanceAs (Decidable True)
    | .call q _ => inferInstanceAs (Decidable (CalmCall provider p.shared q))

def RetryQuery.isOperation : RetryQuery → Bool
  | .operation _ => true
  | .breakerAllows _ | .recordSuccess _ | .recordFailure _ | .backoff _ _ => false

def isFinal : Sigma (RetryAnswer T) → Bool
  | ⟨.operation _, result⟩ => finalError result
  | ⟨.breakerAllows _, _⟩ | ⟨.recordSuccess _, _⟩ | ⟨.recordFailure _, _⟩ | ⟨.backoff _ _, _⟩ => false

/-- the operation runs at most `maxAttempts` times, and not after an error that is not retriable -/
structure Bounded (maxAttempts : Nat) (log : List (Sigma (RetryAnswer T))) : Prop where
  runs : log.countP (fun e => e.1.isOperation) ≤ maxAttempts
  stops : EachSplit (fun pre e => e.1.isOperation = true → pre.any isFinal = false) log

section loops
variable {policy : RetryPolicy} {providers : Nat → String}

theorem callMonitor_after (maxAttempts : Nat) (provider : String) (log : List (Sigma (RetryAnswer T))) :
    ((callMonitor T maxAttempts provider).after .start log).runs =
        log.countP (fun e => e.1.isOperation) ∧
      ((callMonitor T maxAttempts provider).after .start log).finished = log.any isFinal := by
  induction log using reverseRecOn with
  | nil => exact ⟨rfl, rfl⟩
  | append_singleton _ e ih =>
    obtain ⟨hruns, hfinished⟩ := ih
    obtain ⟨q, a⟩ := e
    rw [Monitor.after_concat, countP_append, any_append, ← hruns, ← hfinished]
    cases q <;> exact ⟨rfl, by simp [callMonitor, isFinal]⟩

/-- a breaker that was asked exists -/
def Entered (providers : Nat → String) (i : Nat) (k : CallView) (s : Scheduler W) : Prop :=
  k.entered = true → (s.breakers (providers i)).isSome = true

variable (line : Timeline W T)

theorem Entered.serve {i : Nat} {k : CallView} {s : Scheduler W} (h : Entered providers i k s)
    (q : RetryQuery) (hq : (callMonitor T policy.maxAttempts (providers i)).permits k q) :
    Entered providers i
      ((callMonitor T policy.maxAttempts (providers i)).next k q (Daemon.serve line s q).1)
      (Daemon.serve line s q).2 := by
  cases q with
  | breakerAllows r =>
    intro _
    have hr : r.provider = providers i := hq
    show (((s.store r.provider _).breakers (providers i))).isSome = true
    rw [hr]
    simp [Scheduler.store]
  | operation | recordSuccess | recordFailure | backoff => exact fun hk => serve_isSome line _ (h hk)

/-- the calls keep their monitors, and their logs are bounded -/
structure Orderly (policy : RetryPolicy) (providers : Nat → String) (p : RetryPool W T) : Prop where
  watched : p.Watched (fun i => callMonitor T policy.maxAttempts (providers i)) .start
    (Entered providers)
  bounded : ∀ i, Bounded policy.maxAttempts (p.log i)

theorem Orderly.start (w : W) :
    Orderly (T := T) policy providers (retryLoops policy providers w) where
  watched := Pool.Watched.start (fun _ => executeWithRetry_keeps) fun _ hk => by cases hk
  bounded _ := ⟨Nat.zero_le _, .nil _⟩

theorem Bounded.concat {maxAttempts : Nat} {provider : String} {log : List (Sigma (RetryAnswer T))}
    (h : Bounded maxAttempts log) (q : RetryQuery) (a : RetryAnswer T q)
    (hq : (callMonitor T maxAttempts provider).permits
      ((callMonitor T maxAttempts provider).after .start log) q) :
    Bounded maxAttempts (log ++ [⟨q, a⟩]) := by
  obtain ⟨hruns, hfinished⟩ := callMonitor_after maxAttempts provider log
  cases q with
  | operation =>
    obtain ⟨hless, hopen⟩ := hq
    rw [hruns] at hless
    rw [hfinished] at hopen
    refine ⟨?_, h.stops.concat fun _ => hopen⟩
    rw [countP_append]
    exact hless
  | breakerAllows | recordSuccess | recordFailure | backoff =>
    exact ⟨by rw [countP_append]; exact h.runs, h.stops.concat nofun⟩

theorem Orderly.step {p : RetryPool W T} (h : Orderly policy providers p) (i : Nat) :
    Orderly policy providers (p.step (serve line) i) where
  watched := h.watched.step (fun _ _ q hk hq => ⟨trivial, hk.serve line q hq⟩)
    fun q _ _ _ _ hk hentered => serve_isSome line q (hk hentered)
  bounded j := by
    cases hp : p.prog i with
    | ret a => rw [Pool.step_ended ⟨a, hp⟩]; exact h.bounded j
    | call q f =>
      rw [Pool.step_call hp]
      by_cases hj : j = i
      · subst hj
        have hlog := (h.bounded j).concat q (serve line p.shared q).1 (h.watched.permits ⟨f, hp⟩).1
        simpa only [Function.update_self] using hlog
      · simpa only [Function.update_of_ne hj] using h.bounded j

theorem Sound.step {p : RetryPool W T} {provider : String} (horderly : Orderly policy providers p)
    (h : Sound line provider p.shared) {i : Nat} (hcalm : Calm provider p i) :
    Sound line provider (p.step (Daemon.serve line) i).shared := by
  unfold Calm at hcalm
  cases hp : p.prog i with
  | ret a => rw [Pool.step_ended ⟨a, hp⟩]; exact h
  | call q f =>
    rw [hp] at hcalm
    rw [Pool.step_call hp]
    obtain ⟨hpermits, hentered⟩ := horderly.watched.permits ⟨f, hp⟩
    refine h.serve q hcalm fun r hr => ?_
    rcases hr with rfl | rfl
    · rw [hpermits.1]
      exact hentered hpermits.2
    · rw [hpermits.1]
      exact hentered hpermits.2

end loops

/-- In every interleaving of retry loops each call keeps its bounds, and the breaker of a provider guards it
when all calls are calm. -/
theorem retry_loops_guarded (line : Timeline W T) (policy : RetryPolicy) (providers : Nat → String)
    (w : W) (schedule : List Nat) :
    (∀ i, Bounded policy.maxAttempts
      (((retryLoops policy providers w).run (serve line) schedule).log i)) ∧
    ∀ provider, Pool.Along (serve line) (Calm provider) (retryLoops policy providers w) schedule →
      Guards defaultCircuitFailureThreshold defaultCircuitRecoveryTimeout
        (((retryLoops policy providers w).run (serve line) schedule).shared.about provider) := by
  have hstart : Orderly (T := T) policy providers (retryLoops policy providers w) := .start w
  constructor
  · have hstep : ∀ p i, Orderly policy providers p →
        Orderly policy providers (p.step (serve line) i) := fun _ i h => h.step line i
    exact (Pool.run_keeps hstep hstart).bounded
  · intro provider hcalm
    have hstep : ∀ (p : RetryPool W T) i,
        Orderly policy providers p ∧ Sound line provider p.shared → Calm provider p i →
        Orderly policy providers (p.step (serve line) i) ∧
          Sound line provider (p.step (serve line) i).shared :=
      fun _ i h hc => ⟨h.1.step line i, h.2.step line h.1 hc⟩
    have hsound := (Pool.run_invariant hstep ⟨hstart, Tracks.fresh _⟩ hcalm).2
    have hguards := hsound.guards
    rwa [hsound.threshold, hsound.timeout] at hguards

/-! ## a schedule with a probe -/

def failThenRecover : Timeline Nat Unit where
  now w := w
  outcome _ request := if request.call < 5 then .error (.policyDenial "neuralwatt" "denied") else .ok ()
  cancelled _ _ := false
  advance w
    | .recordFailure request => if request.call = 4 then w + defaultCircuitRecoveryTimeout else w
    | _ => w
  monotone w q := by
    split
    · split <;> omega
    · exact le_refl w

def fiveFailures : List Nat := [0, 0, 0, 1, 1, 1, 2, 2, 2, 3, 3, 3, 4, 4, 4]

/-- the probe succeeds, and another request is let through -/
theorem retry_loops_guarded_probe :
    Pool.Along (serve failThenRecover) (Calm "neuralwatt")
      (retryLoops defaultRetryPolicy (fun _ => "neuralwatt") 0) (fiveFailures ++ [5, 5, 5, 6]) ∧
    Guards defaultCircuitFailureThreshold defaultCircuitRecoveryTimeout
      (((retryLoops defaultRetryPolicy (fun _ => "neuralwatt") 0).run (serve failThenRecover)
        (fiveFailures ++ [5, 5, 5, 6])).shared.about "neuralwatt") := by
  have hcalm : Pool.Along (serve failThenRecover) (Calm "neuralwatt")
      (retryLoops defaultRetryPolicy (fun _ => "neuralwatt") 0) (fiveFailures ++ [5, 5, 5, 6]) := by
    decide +kernel
  exact ⟨hcalm, (retry_loops_guarded failThenRecover defaultRetryPolicy _ 0 _).2 _ hcalm⟩

/-- the half-open breaker lets two requests through -/
theorem two_probes_admitted :
    ((retryLoops defaultRetryPolicy (fun _ => "neuralwatt") 0).run (serve failThenRecover)
      (fiveFailures ++ [5, 6])).shared.about "neuralwatt" =
      (List.range 5).flatMap (fun i => [⟨0, ⟨i, "neuralwatt", 1⟩, .admitted⟩,
        ⟨0, ⟨i, "neuralwatt", 1⟩, .failed⟩]) ++
      [⟨30000000000, ⟨5, "neuralwatt", 1⟩, .admitted⟩, ⟨30000000000, ⟨6, "neuralwatt", 1⟩, .admitted⟩] ∧
    ¬ Guards defaultCircuitFailureThreshold defaultCircuitRecoveryTimeout
      (((retryLoops defaultRetryPolicy (fun _ => "neuralwatt") 0).run (serve failThenRecover)
        (fiveFailures ++ [5, 6])).shared.about "neuralwatt") := by
  have hhistory : ((retryLoops defaultRetryPolicy (fun _ => "neuralwatt") 0).run
      (serve failThenRecover) (fiveFailures ++ [5, 6])).shared.about "neuralwatt" =
      (range 5).flatMap (fun i => [⟨0, ⟨i, "neuralwatt", 1⟩, .admitted⟩,
        ⟨0, ⟨i, "neuralwatt", 1⟩, .failed⟩]) ++
      [⟨30000000000, ⟨5, "neuralwatt", 1⟩, .admitted⟩,
        ⟨30000000000, ⟨6, "neuralwatt", 1⟩, .admitted⟩] := by
    decide +kernel
  refine ⟨hhistory, fun hguards => ?_⟩
  rw [hhistory] at hguards
  refine hguards.probes (_ ++ [_]) _ [] (append_assoc _ [_] [_]).symm rfl
    ⟨5, "neuralwatt", 1⟩ ?_
  exact pending_concat.mpr (.inl ⟨rfl, by decide +kernel, rfl⟩)

end Daemon

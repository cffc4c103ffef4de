import Orchestraitor.Base.Ordered
import Orchestraitor.Board.Contract

/-!
# The write-through cache

`CachedBoard` wraps a provider and is one itself (`CachedBoard.call`).  A write goes to the provider
first; then the item is read back, the cache takes what was read, and every axis on which the
read-back differs from the write is recorded as a divergence.

The wrapped provider is any environment of the calls, so the board may be edited between a write and
its read-back.  The poisoning of the cache's lock is left out.
-/

namespace Board
open Base

/-! ## body versions -/

def fnvOffset : UInt64 := 0xcbf29ce484222325
def fnvPrime : UInt64 := 0x00000100000001b3

def fnv1a64 (bytes : List UInt8) : UInt64 :=
  bytes.foldl (fun hash byte => (hash ^^^ byte.toUInt64) * fnvPrime) fnvOffset

/-- the digest by which bodies are compared: `expected_body_version` -/
def expectedBodyVersion (body : String) : UInt64 := fnv1a64 body.toUTF8.data.toList

def bodyVersion (item : BoardItem) : UInt64 := expectedBodyVersion item.body

/-! ## the cache -/

inductive Divergence where
  | status (status : String)
  | field (field : String) (value : BoardFieldValue)
  | fieldCleared (field : String)
  | body (version : UInt64)
  | title (title : String)
  deriving DecidableEq

inductive CacheEvent where
  | boardDiverged (item : BoardItemId) (expected actual : Divergence)

structure CachedItem where
  item : BoardItem
  lastSyncedMs : Nat

structure CacheState where
  items : OrdMap BoardItemId CachedItem
  providerBodyVersions : OrdMap BoardItemId UInt64
  pendingEvents : List CacheEvent

structure CachedBoard (σ : Type) where
  provider : σ
  state : CacheState
  refreshGeneration : Nat

def CachedBoard.new {σ : Type} (provider : σ) : CachedBoard σ :=
  { provider, state := { items := ∅, providerBodyVersions := ∅, pendingEvents := [] },
    refreshGeneration := 0 }

structure Host (σ : Type) where
  call : Provider σ
  unixMillis : σ → Nat

abbrev CacheM (σ : Type) := ExceptT BoardContractError (StateM (CachedBoard σ))

namespace CachedBoard
variable {σ : Type}

def exec {α : Type} (b : CachedBoard σ) (x : CacheM σ α) :
    Except BoardContractError α × CachedBoard σ :=
  x.run b

def forward (host : Host σ) (q : BoardCall) : CacheM σ q.Reply :=
  ExceptT.mk fun b => ((host.call b.provider q).1, { b with provider := (host.call b.provider q).2 })

def CacheState.put (state : CacheState) (id : BoardItemId) (item : BoardItem) (stamp : Nat) :
    CacheState :=
  { state with
    items := state.items.insert id { item, lastSyncedMs := stamp }
    providerBodyVersions := state.providerBodyVersions.insert id (bodyVersion item) }

def commit (host : Host σ) (f : Nat → CacheState → CacheState) : CacheM σ Unit :=
  ExceptT.mk fun b => (.ok (), { b with
    state := f (host.unixMillis b.provider) b.state
    refreshGeneration := (b.refreshGeneration + 1) % 2 ^ 64 })

def refresh (host : Host σ) (id : BoardItemId) : CacheM σ BoardItem := do
  let actual ← forward host (.item id)
  commit host fun stamp state => CacheState.put state id actual stamp
  return actual

def recordDivergence (host : Host σ) (event : CacheEvent) (actual : BoardItem) : CacheM σ Unit :=
  commit host fun stamp state => CacheState.put
    { state with pendingEvents := state.pendingEvents ++ [event] } actual.id actual stamp

def reconcile (host : Host σ) (id : BoardItemId) (actual : BoardItem)
    (expected observed : Divergence) : CacheM σ Unit :=
  if observed ≠ expected then recordDivergence host (.boardDiverged id expected observed) actual
  else return ()

def observedBodyVersion (b : CachedBoard σ) (id : BoardItemId) : Option UInt64 :=
  b.state.providerBodyVersions[id]?

def reconcileBody (host : Host σ) (id : BoardItemId) (actual : BoardItem)
    (observedBefore : Option UInt64) (body : String) : CacheM σ Unit :=
  if observedBefore.isSome then
    reconcile host id actual (.body (expectedBodyVersion body)) (.body (bodyVersion actual))
  else return ()

def updateItemBody (host : Host σ) (id : BoardItemId) (title body : String) : CacheM σ Unit := do
  let observedBefore ← ExceptT.mk fun b => (.ok (b.observedBodyVersion id), b)
  forward host (.updateItemBody id title body)
  let actual ← refresh host id
  reconcileBody host id actual observedBefore body
  reconcile host id actual (.title title) (.title actual.title)

def setItemStatus (host : Host σ) (id : BoardItemId) (status : String) : CacheM σ Unit := do
  forward host (.setItemStatus id status)
  let actual ← refresh host id
  reconcile host id actual (.status status) (.status actual.status)

def fieldDivergence (field : String) : Option BoardFieldValue → Divergence
  | some value => .field field value
  | none => .fieldCleared field

def setFieldValue (host : Host σ) (id : BoardItemId) (field : String) (value : BoardFieldValue) :
    CacheM σ Unit := do
  forward host (.setFieldValue id field value)
  let actual ← refresh host id
  let providerValue ← forward host (.fieldValue id field)
  reconcile host id actual (.field field value) (fieldDivergence field providerValue)

/-- `impl BoardProvider for CachedBoard`: the writes of item data go through the cache, everything
else straight to the provider -/
def call (host : Host σ) : Provider (CachedBoard σ)
  | b, .updateItemBody id title body => b.exec (updateItemBody host id title body)
  | b, .setItemStatus id status => b.exec (setItemStatus host id status)
  | b, .setFieldValue id field value => b.exec (setFieldValue host id field value)
  | b, q => b.exec (forward host q)

/-! ## what a write leaves behind -/

def entry (b : CachedBoard σ) (id : BoardItemId) : Option BoardItem := b.state.items[id]?.map (·.item)

def diverged (id : BoardItemId) (expected observed : Divergence) : List CacheEvent :=
  if observed = expected then [] else [.boardDiverged id expected observed]

section
variable {α β : Type} {host : Host σ} {id : BoardItemId} {b b' : CachedBoard σ}

theorem exec_bind (b : CachedBoard σ) (x : CacheM σ α) (f : α → CacheM σ β) :
    b.exec (x >>= f) = match b.exec x with
      | (.ok a, b') => b'.exec (f a)
      | (.error e, b') => (.error e, b') := by
  show (ExceptT.bindCont f (x.run b).1) (x.run b).2 = _
  unfold exec
  rcases x.run b with ⟨_ | a, b'⟩ <;> rfl

theorem exec_bind_ok {x : CacheM σ α} {f : α → CacheM σ β} {r : β}
    (h : b.exec (x >>= f) = (.ok r, b')) :
    ∃ a b1, b.exec x = (.ok a, b1) ∧ b1.exec (f a) = (.ok r, b') := by
  rw [exec_bind] at h
  rcases hx : b.exec x with ⟨_ | a, b1⟩
  · rw [hx] at h
    exact absurd (congrArg Prod.fst h) (by simp)
  · rw [hx] at h
    exact ⟨a, b1, rfl, h⟩

theorem exec_bind_error {x : CacheM σ α} {f : α → CacheM σ β} {e : BoardContractError}
    (h : b.exec x = (.error e, b')) : b.exec (x >>= f) = (.error e, b') := by
  rw [exec_bind, h]

theorem exec_forward (b : CachedBoard σ) (q : BoardCall) : b.exec (forward host q) =
    ((host.call b.provider q).1, { b with provider := (host.call b.provider q).2 }) := rfl

theorem refresh_ok {actual : BoardItem} (h : b.exec (refresh host id) = (.ok actual, b')) :
    (host.call b.provider (.item id)).1 = .ok actual ∧
      b'.provider = (host.call b.provider (.item id)).2 ∧ b'.entry id = some actual ∧
      b'.state.pendingEvents = b.state.pendingEvents := by
  obtain ⟨item, b1, hf, h⟩ := exec_bind_ok h
  obtain ⟨hread, rfl⟩ := Prod.mk.inj hf
  obtain ⟨he, rfl⟩ := Prod.mk.inj h
  obtain rfl : item = actual := Except.ok.inj he
  refine ⟨hread, rfl, ?_, rfl⟩
  simp [entry, CacheState.put]

variable (host) in
theorem exec_reconcile (b : CachedBoard σ) (actual : BoardItem) (expected observed : Divergence)
    (hentry : b.entry id = some actual) :
    ∃ b', b.exec (reconcile host id actual expected observed) = (.ok (), b') ∧
      b'.entry id = some actual ∧
      b'.state.pendingEvents = b.state.pendingEvents ++ diverged id expected observed := by
  unfold reconcile diverged
  by_cases h : observed = expected
  · rw [if_neg (by simpa using h), if_pos h, List.append_nil]
    exact ⟨b, rfl, hentry, rfl⟩
  · rw [if_pos h, if_neg h]
    refine ⟨_, rfl, ?_, rfl⟩
    -- the event's refresh writes the entry of the id that was read
    by_cases hid : id = actual.id
    · simp [entry, CacheState.put, hid]
    · simpa [entry, CacheState.put, hid] using hentry

theorem refresh_then {f : BoardItem → CacheM σ Unit}
    (h : (b.exec (refresh host id >>= f)).1 = .ok ()) : ∃ (actual : BoardItem) (b1 : CachedBoard σ),
      (host.call b.provider (.item id)).1 = .ok actual ∧
      b1.provider = (host.call b.provider (.item id)).2 ∧ b1.entry id = some actual ∧
      b1.state.pendingEvents = b.state.pendingEvents ∧
      b.exec (refresh host id >>= f) = b1.exec (f actual) := by
  have hr : b.exec (refresh host id >>= f) = (.ok (), (b.exec (refresh host id >>= f)).2) :=
    Prod.ext h rfl
  obtain ⟨actual, b1, hx, hf⟩ := exec_bind_ok hr
  obtain ⟨hread, hprov, hentry, hev⟩ := refresh_ok hx
  exact ⟨actual, b1, hread, hprov, hentry, hev, hr.trans hf.symm⟩

theorem forward_then {q : BoardCall} {f : q.Reply → CacheM σ Unit}
    (h : (b.exec (forward host q >>= f)).1 = .ok ()) : ∃ a, (host.call b.provider q).1 = .ok a ∧
      b.exec (forward host q >>= f) =
        ({ b with provider := (host.call b.provider q).2 } : CachedBoard σ).exec (f a) := by
  have hr : b.exec (forward host q >>= f) = (.ok (), (b.exec (forward host q >>= f)).2) :=
    Prod.ext h rfl
  obtain ⟨a, b1, hx, hf⟩ := exec_bind_ok hr
  obtain ⟨hread, rfl⟩ := Prod.mk.inj hx
  exact ⟨a, hread, hr.trans hf.symm⟩

theorem forward_error {q : BoardCall} {f : q.Reply → CacheM σ α} {e : BoardContractError}
    (h : (host.call b.provider q).1 = .error e) : (b.exec (forward host q >>= f)).1 = .error e ∧
      (b.exec (forward host q >>= f)).2.state = b.state := by
  have hx : b.exec (forward host q) =
      (.error e, { b with provider := (host.call b.provider q).2 }) := by
    rw [exec_forward, h]
  rw [exec_bind_error hx]
  exact ⟨rfl, rfl⟩

theorem diverged_of_iff {p : Prop} [Decidable p] {expected observed : Divergence}
    (h : observed = expected ↔ p) :
    diverged id expected observed = if p then [] else [.boardDiverged id expected observed] := by
  exact if_congr h rfl rfl

theorem setItemStatus_ok {status : String}
    (h : (b.exec (setItemStatus host id status)).1 = .ok ()) :
    let written := host.call b.provider (.setItemStatus id status)
    ∃ actual, written.1 = .ok () ∧ (host.call written.2 (.item id)).1 = .ok actual ∧
      (b.exec (setItemStatus host id status)).2.entry id = some actual ∧
      (b.exec (setItemStatus host id status)).2.state.pendingEvents = b.state.pendingEvents ++
        if actual.status = status then []
        else [.boardDiverged id (.status status) (.status actual.status)] := by
  obtain ⟨_, hw, e⟩ := forward_then h
  rw [setItemStatus, e] at h ⊢
  obtain ⟨actual, b1, hread, -, hentry, hev, e'⟩ := refresh_then h
  rw [e']
  obtain ⟨b2, hx, hentry', hev'⟩ := exec_reconcile host b1 actual (.status status)
    (.status actual.status) hentry
  rw [hx]
  refine ⟨actual, hw, hread, hentry', ?_⟩
  rw [hev', hev, diverged_of_iff (p := actual.status = status) (by simp)]

variable (host) in
theorem exec_reconcileBody (b : CachedBoard σ) (actual : BoardItem)
    (observedBefore : Option UInt64) (body : String) (hentry : b.entry id = some actual) :
    ∃ b', b.exec (reconcileBody host id actual observedBefore body) = (.ok (), b') ∧
      b'.entry id = some actual ∧
      b'.state.pendingEvents = b.state.pendingEvents ++ if observedBefore.isSome then
        diverged id (.body (expectedBodyVersion body)) (.body (bodyVersion actual)) else [] := by
  unfold reconcileBody
  by_cases ho : observedBefore.isSome = true
  · rw [if_pos ho, if_pos ho]
    exact exec_reconcile host b actual _ _ hentry
  · rw [if_neg ho, if_neg ho, List.append_nil]
    exact ⟨b, rfl, hentry, rfl⟩

theorem updateItemBody_ok {title body : String}
    (h : (b.exec (updateItemBody host id title body)).1 = .ok ()) :
    let written := host.call b.provider (.updateItemBody id title body)
    ∃ actual, written.1 = .ok () ∧ (host.call written.2 (.item id)).1 = .ok actual ∧
      (b.exec (updateItemBody host id title body)).2.entry id = some actual ∧
      (b.exec (updateItemBody host id title body)).2.state.pendingEvents =
        b.state.pendingEvents ++
        (if (b.observedBodyVersion id).isSome then
          diverged id (.body (expectedBodyVersion body)) (.body (bodyVersion actual)) else []) ++
        if actual.title = title then []
        else [.boardDiverged id (.title title) (.title actual.title)] := by
  have h0 : b.exec (updateItemBody host id title body) = b.exec (do
      forward host (.updateItemBody id title body)
      let actual ← refresh host id
      reconcileBody host id actual (b.observedBodyVersion id) body
      reconcile host id actual (.title title) (.title actual.title)) := rfl
  rw [h0] at h ⊢
  obtain ⟨_, hw, e⟩ := forward_then h
  rw [e] at h ⊢
  obtain ⟨actual, b1, hread, -, hentry, hev, e'⟩ := refresh_then h
  obtain ⟨b2, hx2, hentry2, hev2⟩ := exec_reconcileBody host b1 actual
    (b.observedBodyVersion id) body hentry
  obtain ⟨b3, hx3, hentry3, hev3⟩ := exec_reconcile host b2 actual (.title title)
    (.title actual.title) hentry2
  rw [e', exec_bind, hx2]
  dsimp only
  rw [hx3]
  refine ⟨actual, hw, hread, hentry3, ?_⟩
  have htitle : Divergence.title actual.title = .title title ↔ actual.title = title := by simp
  rw [hev3, diverged_of_iff htitle, hev2, hev]

theorem setFieldValue_ok {field : String} {value : BoardFieldValue}
    (h : (b.exec (setFieldValue host id field value)).1 = .ok ()) :
    let written := host.call b.provider (.setFieldValue id field value)
    let read := host.call written.2 (.item id)
    ∃ actual held, written.1 = .ok () ∧ read.1 = .ok actual ∧
      (host.call read.2 (.fieldValue id field)).1 = .ok held ∧
      (b.exec (setFieldValue host id field value)).2.entry id = some actual ∧
      (b.exec (setFieldValue host id field value)).2.state.pendingEvents =
        b.state.pendingEvents ++ if held = some value then []
        else [.boardDiverged id (.field field value) (fieldDivergence field held)] := by
  obtain ⟨_, hw, e⟩ := forward_then h
  rw [setFieldValue, e] at h ⊢
  obtain ⟨actual, b1, hread, hprov, hentry, hev, e'⟩ := refresh_then h
  rw [e'] at h ⊢
  obtain ⟨held, hheld, e''⟩ := forward_then h
  rw [e'']
  obtain ⟨b2, hx, hentry', hev'⟩ := exec_reconcile host
    { b1 with provider := (host.call b1.provider (.fieldValue id field)).2 } actual
    (.field field value) (fieldDivergence field held) hentry
  rw [hx]
  rw [hprov] at hheld
  refine ⟨actual, held, hw, hread, hheld, hentry', ?_⟩
  rw [hev', hev, diverged_of_iff (p := held = some value) (by cases held <;> simp [fieldDivergence])]

end

/-- a write that reads its item back -/
def ReadsBack : BoardCall → Prop
  | .updateItemBody _ _ _ | .setItemStatus _ _ | .setFieldValue _ _ _ => True
  | _ => False

/-- **Write-through.**  A write that returns `Ok` leaves the item that was read back in the cache
and records exactly the axes on which it differs from what was written, the body axis only for an
item whose body version was observed before.  A write that the provider refuses leaves the cache as
it was, and so does every call that reads nothing back. -/
theorem writes_reconcile (host : Host σ) (b : CachedBoard σ) (id : BoardItemId) :
    (∀ status,
      let r := call host b (.setItemStatus id status)
      let written := host.call b.provider (.setItemStatus id status)
      (r.1 = .ok () → ∃ actual, written.1 = .ok () ∧
        (host.call written.2 (.item id)).1 = .ok actual ∧ r.2.entry id = some actual ∧
        r.2.state.pendingEvents = b.state.pendingEvents ++ if actual.status = status then []
          else [.boardDiverged id (.status status) (.status actual.status)]) ∧
      ∀ e, written.1 = .error e → r.1 = .error e ∧ r.2.state = b.state) ∧
    (∀ title body,
      let r := call host b (.updateItemBody id title body)
      let written := host.call b.provider (.updateItemBody id title body)
      (r.1 = .ok () → ∃ actual, written.1 = .ok () ∧
        (host.call written.2 (.item id)).1 = .ok actual ∧ r.2.entry id = some actual ∧
        -- the digests of the two bodies do not collide
        ((bodyVersion actual = expectedBodyVersion body → actual.body = body) →
          r.2.state.pendingEvents = b.state.pendingEvents ++
            (if actual.body = body ∨ b.observedBodyVersion id = none then []
              else [.boardDiverged id (.body (expectedBodyVersion body))
                (.body (bodyVersion actual))]) ++
            if actual.title = title then []
            else [.boardDiverged id (.title title) (.title actual.title)])) ∧
      ∀ e, written.1 = .error e → r.1 = .error e ∧ r.2.state = b.state) ∧
    (∀ field value,
      let r := call host b (.setFieldValue id field value)
      let written := host.call b.provider (.setFieldValue id field value)
      let read := host.call written.2 (.item id)
      (r.1 = .ok () → ∃ actual held, written.1 = .ok () ∧ read.1 = .ok actual ∧
        (host.call read.2 (.fieldValue id field)).1 = .ok held ∧ r.2.entry id = some actual ∧
        r.2.state.pendingEvents = b.state.pendingEvents ++ if held = some value then []
          else [.boardDiverged id (.field field value) (fieldDivergence field held)]) ∧
      ∀ e, written.1 = .error e → r.1 = .error e ∧ r.2.state = b.state) ∧
    ∀ q, ¬ ReadsBack q → (call host b q).1 = (host.call b.provider q).1 ∧
      (call host b q).2.state = b.state := by
  refine ⟨fun status => ⟨setItemStatus_ok, fun e he => forward_error he⟩,
    fun title body => ⟨fun h => ?_, fun e he => forward_error he⟩,
    fun field value => ⟨setFieldValue_ok, fun e he => forward_error he⟩, fun q hq => ?_⟩
  · obtain ⟨actual, hw, hread, hentry, hev⟩ := updateItemBody_ok h
    refine ⟨actual, hw, hread, hentry, fun hfree => ?_⟩
    have hbody : Divergence.body (bodyVersion actual) = .body (expectedBodyVersion body) ↔
        actual.body = body := by
      rw [Divergence.body.injEq]
      exact ⟨hfree, fun hb => by rw [bodyVersion, hb]⟩
    rw [show (call host b (.updateItemBody id title body)).2.state.pendingEvents = _ from hev,
      diverged_of_iff hbody]
    cases b.observedBodyVersion id <;> simp
  · cases q with
    | updateItemBody | setItemStatus | setFieldValue => exact absurd trivial hq
    | _ => exact ⟨rfl, rfl⟩

def editedHost : Host Unit where
  call
    | _, .item id =>
      (.ok { id, itemType := .task, title := "T", body := "edited", status := "Ready" }, ())
    | _, .updateItemBody _ _ _ => (.ok (), ())
    | _, _ => (.error (.transport "not served"), ())
  unixMillis _ := 0

/-- The first write to an item through a new cache: the body read back is not the one written, and
no event says so. -/
theorem unobserved_body_edit_unrecorded :
    let r := call editedHost (CachedBoard.new ()) (.updateItemBody "a" "T" "written")
    r.1 = .ok () ∧ (r.2.entry "a").map (·.body) = some "edited" ∧ r.2.state.pendingEvents = [] := by
  exact ⟨rfl, rfl, rfl⟩

end CachedBoard

end Board

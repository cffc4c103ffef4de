import Mathlib.Data.List.Nodup
import Mathlib.Data.List.Sort
import Mathlib.Data.Prod.Lex
import Mathlib.Data.String.Basic
import Orchestraitor.Ingress.Poller

/-!
# The intake lane

Accepted `issues-opened` events wait in a durable store of their own; each tick of `intake_attach_loop`
takes a batch out of it, attaches what it can to the board and puts back what failed.  `loopBody` is a
tick as the loop runs it, `Daemon.step` the same tick one write at a time, with the poller's puts in
between and a crash at any moment, which leaves only the store (`rounds_simulated`).

* The table is the list of its rows in the order in which `take` reads them.
* `str::to_lowercase` is a parameter.
* `ended` is a history of the daemon that nothing reads.
-/

namespace Ingress
open Base

/-! ## the attacher -/

inductive AuthorClass where
  | human
  | bot
  | agent
  deriving DecidableEq

def AuthorClass.label : AuthorClass → String
  | .human => "intake:human"
  | .bot => "intake:bot"
  | .agent => "intake:agent"

structure IntakeAttachment where
  repo : String
  number : Nat
  status : String
  itemType : String
  priority : String
  label : String
  authorClass : AuthorClass

structure IntakeAttacher where
  serviceIdentities : List String
  lowercase : String → String

/-- `login.strip_suffix("[bot]").unwrap_or(login)` -/
def stripBot (login : String) : String :=
  if "[bot]".toList.isSuffixOf login.toList then
    String.ofList (login.toList.take (login.toList.length - "[bot]".toList.length))
  else login

variable (attacher : IntakeAttacher)

def IntakeAttacher.classifyAuthorOpt (login : String) (platformBot : Option Bool) : AuthorClass :=
  let normalized := attacher.lowercase (trim login)
  let stripped := stripBot normalized
  if attacher.serviceIdentities.any fun slug => attacher.lowercase (trim slug) == stripped then .agent
  else if stripped ≠ normalized then .bot
  -- an unknown bot fact counts as a bot
  else if platformBot.getD true then .bot
  else .human

def intakeAttachment (event : IngressEvent) (authorClass : AuthorClass) : Option IntakeAttachment :=
  if event.eventType ≠ "issues-opened" then none
  else if authorClass = .agent then none
  else some
    { repo := event.repo
      number := event.number
      status := "Triage"
      itemType := "Bug"
      priority := "P1"
      label := authorClass.label
      authorClass }

structure IntakeOutcome where
  attached : Nat := 0
  alreadyAttached : Nat := 0
  skipped : Nat := 0
  missingAuthor : Nat := 0
  failed : Nat := 0
  failedEvents : List IngressEvent := []

abbrev BoardAnswer := Except String Bool

def IntakeAttacher.processOne (answer : IntakeAttachment → BoardAnswer) (outcome : IntakeOutcome)
    (event : IngressEvent) : IntakeOutcome :=
  match event.authorLogin with
  | none => { outcome with missingAuthor := outcome.missingAuthor + 1 }
  | some login =>
    match intakeAttachment event (attacher.classifyAuthorOpt login event.authorIsBot) with
    | none => { outcome with skipped := outcome.skipped + 1 }
    | some attachment =>
      match answer attachment with
      | .ok true => { outcome with attached := outcome.attached + 1 }
      | .ok false => { outcome with alreadyAttached := outcome.alreadyAttached + 1 }
      | .error _ => { outcome with
          failed := outcome.failed + 1, failedEvents := outcome.failedEvents ++ [event] }

def IntakeAttacher.process (answer : IngressEvent → IntakeAttachment → BoardAnswer)
    (events : List IngressEvent) :
    IntakeOutcome :=
  events.foldl (fun outcome event => attacher.processOne (answer event) outcome event) {}

def IntakeAttacher.fails (answer : IntakeAttachment → BoardAnswer) (event : IngressEvent) : Bool :=
  (event.authorLogin.bind fun login =>
    intakeAttachment event (attacher.classifyAuthorOpt login event.authorIsBot)).any
    fun attachment => !(answer attachment).isOk

theorem processOne_failedEvents (answer : IntakeAttachment → BoardAnswer) (outcome : IntakeOutcome)
    (event : IngressEvent) : (attacher.processOne answer outcome event).failedEvents =
      if attacher.fails answer event then outcome.failedEvents ++ [event] else outcome.failedEvents := by
  unfold IntakeAttacher.processOne IntakeAttacher.fails
  cases event.authorLogin with
  | none => rfl
  | some login =>
    cases hattach : intakeAttachment event (attacher.classifyAuthorOpt login event.authorIsBot) with
    | none => simp [hattach]
    | some attachment =>
      cases hanswer : answer attachment with
      | ok attached => cases attached <;> simp [hattach, hanswer, Except.toBool]
      | error => simp [hattach, hanswer, Except.toBool]

/-! ## the store -/

structure IntakeRow where
  deliveryKey : String
  repo : String
  number : Nat
  authorLogin : Option String
  authorIsBot : Option Bool
  acceptedSecs : Nat
  deriving DecidableEq

/-- `ORDER BY accepted_secs, delivery_key` -/
def IntakeRow.precedes (x y : IntakeRow) : Prop :=
  x.acceptedSecs < y.acceptedSecs ∨ x.acceptedSecs = y.acceptedSecs ∧ x.deliveryKey ≤ y.deliveryKey

instance : DecidableRel IntakeRow.precedes := fun _ _ =>
  inferInstanceAs (Decidable (_ ∨ _ ∧ _))

theorem IntakeRow.precedes_iff {x y : IntakeRow} : x.precedes y ↔
    toLex (x.acceptedSecs, x.deliveryKey) ≤ toLex (y.acceptedSecs, y.deliveryKey) := by
  rw [Prod.Lex.toLex_le_toLex]
  rfl

instance : IsTrans IntakeRow IntakeRow.precedes where
  trans _ _ _ h h' := IntakeRow.precedes_iff.mpr
    ((IntakeRow.precedes_iff.mp h).trans (IntakeRow.precedes_iff.mp h'))

instance : Std.Total IntakeRow.precedes where
  total _ _ := (le_total (toLex _) (toLex _)).imp IntakeRow.precedes_iff.mpr IntakeRow.precedes_iff.mpr

theorem IntakeRow.precedes_antisymm {x y : IntakeRow} (h : x.precedes y) (h' : y.precedes x) :
    x.deliveryKey = y.deliveryKey := by
  have heq := le_antisymm (IntakeRow.precedes_iff.mp h) (IntakeRow.precedes_iff.mp h')
  exact (Prod.mk.inj (toLex.injective heq)).2

def IntakeRow.ofEvent (event : IngressEvent) : IntakeRow :=
  { deliveryKey := event.deliveryKey
    repo := event.repo
    number := min event.number i64Max
    authorLogin := event.authorLogin
    authorIsBot := event.authorIsBot
    acceptedSecs := min event.acceptedAtSecs i64Max }

def IntakeRow.event (row : IntakeRow) : IngressEvent :=
  { deliveryKey := row.deliveryKey
    repo := row.repo
    eventType := "issues-opened"
    headSha := none
    number := row.number
    authorLogin := row.authorLogin
    authorIsBot := row.authorIsBot
    acceptedAtSecs := row.acceptedSecs }

/-- the table of the intake events; its calls are taken to succeed.  The source returns the errors of the
database, and the loop only warns when a failed event cannot be put back. -/
structure IntakeStore where
  rows : List IntakeRow
  sorted : rows.Pairwise IntakeRow.precedes
  nodup : (rows.map (·.deliveryKey)).Nodup

namespace IntakeStore

def keys (store : IntakeStore) : List String := store.rows.map (·.deliveryKey)

def empty : IntakeStore := ⟨[], .nil, List.nodup_nil⟩

/-- `INSERT OR IGNORE`, taken to succeed -/
def put (store : IntakeStore) (event : IngressEvent) : IntakeStore :=
  if h : event.deliveryKey ∈ store.keys then store
  else
    { rows := store.rows.orderedInsert IntakeRow.precedes (.ofEvent event)
      sorted := store.sorted.orderedInsert _ _
      nodup := by
        refine (List.Perm.map _ (List.perm_orderedInsert _ _ _)).nodup_iff.mpr ?_
        exact List.nodup_cons.mpr ⟨h, store.nodup⟩ }

/-- the first `limit` events, deleted as they are read; taken to succeed -/
def take (store : IntakeStore) (limit : Nat) : List IngressEvent × IntakeStore :=
  let taken := store.rows.take limit
  (taken.map (·.event),
    { rows := store.rows.filter fun row => row.deliveryKey ∉ taken.map (·.deliveryKey)
      sorted := store.sorted.filter _
      nodup := (List.filter_sublist.map _).nodup store.nodup })

end IntakeStore

/-! ## the loop -/

def intakeTickLimit : Nat := 32

def loopBody (answer : IngressEvent → IntakeAttachment → BoardAnswer) (store : IntakeStore) :
    IntakeStore × IntakeOutcome :=
  let (events, store) := store.take intakeTickLimit
  let outcome := attacher.process answer events
  (outcome.failedEvents.foldl IntakeStore.put store, outcome)

inductive Hand where
  | idle
  | processing (todo : List IngressEvent) (outcome : IntakeOutcome)
  | retrying (left : List IngressEvent)

structure Daemon where
  store : IntakeStore
  hand : Hand
  ended : List String

inductive Act where
  | put (event : IngressEvent)
  | take
  | advance (answer : IntakeAttachment → BoardAnswer)
  | crash

def Daemon.step (d : Daemon) : Act → Daemon
  | .put event => { d with store := d.store.put event }
  | .take => match d.hand with
    | .idle => { d with
        store := (d.store.take intakeTickLimit).2
        hand := .processing (d.store.take intakeTickLimit).1 {} }
    | _ => d
  | .advance answer => match d.hand with
    | .idle => d
    | .processing [] outcome => { d with hand := .retrying outcome.failedEvents }
    | .processing (event :: todo) outcome => { d with
        hand := .processing todo (attacher.processOne answer outcome event)
        ended := if attacher.fails answer event then d.ended else event.deliveryKey :: d.ended }
    | .retrying [] => { d with hand := .idle }
    | .retrying (event :: left) => { d with store := d.store.put event, hand := .retrying left }
  | .crash => { d with hand := .idle }

def Daemon.run (d : Daemon) (acts : List Act) : Daemon :=
  acts.foldl (Daemon.step attacher) d

def Daemon.initial : Daemon := { store := .empty, hand := .idle, ended := [] }

section
variable {attacher : IntakeAttacher} {d : Daemon}

theorem Daemon.run_append (acts acts' : List Act) :
    d.run attacher (acts ++ acts') = (d.run attacher acts).run attacher acts' :=
  List.foldl_append

theorem Daemon.run_cons (act : Act) (acts : List Act) :
    d.run attacher (act :: acts) = (d.step attacher act).run attacher acts := rfl

/-! ## a tick without a crash -/

/-- the keys of the events that do not fail, the newest first -/
def endedBy (attacher : IntakeAttacher) (answer : IngressEvent → IntakeAttachment → BoardAnswer)
    (events : List IngressEvent) : List String :=
  ((events.filter fun event => !attacher.fails (answer event) event).map (·.deliveryKey)).reverse

theorem run_processing (attacher : IntakeAttacher)
    (answer : IngressEvent → IntakeAttachment → BoardAnswer) (todo : List IngressEvent)
    (store : IntakeStore) (outcome : IntakeOutcome) (ended : List String) :
    Daemon.run attacher ⟨store, .processing todo outcome, ended⟩
      (todo.map fun event => .advance (answer event)) =
      ⟨store, .processing [] (todo.foldl (fun o event => attacher.processOne (answer event) o event)
        outcome), endedBy attacher answer todo ++ ended⟩ := by
  induction todo generalizing outcome ended with
  | nil => rfl
  | cons event todo ih =>
    rw [List.map_cons, Daemon.run_cons]
    refine (ih _ _).trans ?_
    cases h : attacher.fails (answer event) event <;> simp [endedBy, h]

/-- the failed events go back in order -/
theorem run_retrying (answer : IntakeAttachment → BoardAnswer) (left : List IngressEvent)
    (store : IntakeStore) (ended : List String) : Daemon.run attacher ⟨store, .retrying left, ended⟩
      (List.replicate (left.length + 1) (.advance answer)) =
      ⟨left.foldl IntakeStore.put store, .idle, ended⟩ := by
  induction left generalizing store with
  | nil => rfl
  | cons _ _ ih => exact ih _

theorem run_tick (answer : IngressEvent → IntakeAttachment → BoardAnswer) (store : IntakeStore)
    (ended : List String) : ∃ acts, (∀ act ∈ acts, ∃ a, act = .advance a) ∧
      Daemon.run attacher ⟨store, .idle, ended⟩ (.take :: acts) =
        ⟨(loopBody attacher answer store).1, .idle,
          endedBy attacher answer (store.take intakeTickLimit).1 ++ ended⟩ := by
  let outcome := attacher.process answer (store.take intakeTickLimit).1
  refine ⟨((store.take intakeTickLimit).1.map fun event => .advance (answer event)) ++
    .advance (fun _ => .ok true) ::
      List.replicate (outcome.failedEvents.length + 1) (.advance fun _ => .ok true), ?_, ?_⟩
  · intro act hact
    simp only [List.mem_append, List.mem_map, List.mem_cons, List.mem_replicate] at hact
    obtain ⟨event, _, rfl⟩ | rfl | ⟨_, rfl⟩ := hact
    · exact ⟨_, rfl⟩
    · exact ⟨_, rfl⟩
    · exact ⟨_, rfl⟩
  · rw [Daemon.run_cons, Daemon.run_append]
    show Daemon.run attacher (Daemon.run attacher ⟨(store.take intakeTickLimit).2, _, ended⟩ _) _ = _
    rw [run_processing]
    exact run_retrying _ _ _ _

theorem run_puts (events : List IngressEvent) (store : IntakeStore) (ended : List String) :
    Daemon.run attacher ⟨store, .idle, ended⟩ (events.map .put) =
      ⟨events.foldl IntakeStore.put store, .idle, ended⟩ := by
  induction events generalizing store with
  | nil => rfl
  | cons _ _ ih => exact ih _

/-- what the poller puts before a tick, and the answers of the board in it -/
structure Round where
  puts : List IngressEvent
  answer : IngressEvent → IntakeAttachment → BoardAnswer

/-- the store and the ended keys after a round of the loop -/
def Round.after (attacher : IntakeAttacher) (s : IntakeStore × List String) (r : Round) :
    IntakeStore × List String :=
  let store := r.puts.foldl IntakeStore.put s.1
  ((loopBody attacher r.answer store).1,
    endedBy attacher r.answer (store.take intakeTickLimit).1 ++ s.2)

/-- **The loop, one write at a time**: any number of rounds of the loop is a run of the daemon without a
crash, with the same store and the same events brought to their end. -/
theorem rounds_simulated (attacher : IntakeAttacher) (rounds : List Round)
    (s : IntakeStore × List String) : ∃ acts, Act.crash ∉ acts ∧
      Daemon.run attacher ⟨s.1, .idle, s.2⟩ acts =
        ⟨(rounds.foldl (Round.after attacher) s).1, .idle,
          (rounds.foldl (Round.after attacher) s).2⟩ := by
  induction rounds generalizing s with
  | nil => exact ⟨[], by simp, rfl⟩
  | cons r rounds ih =>
    obtain ⟨tick, hadvances, htick⟩ := run_tick r.answer
      (r.puts.foldl IntakeStore.put s.1) s.2
    obtain ⟨acts, hcrash, hrun⟩ := ih (Round.after attacher s r)
    refine ⟨r.puts.map .put ++ .take :: tick ++ acts, ?_, ?_⟩
    · simp only [List.mem_append, List.mem_map, List.mem_cons, not_or]
      refine ⟨⟨by simp, by simp, fun h => ?_⟩, hcrash⟩
      obtain ⟨_, h⟩ := hadvances _ h
      cases h
    · rw [Daemon.run_append, Daemon.run_append, run_puts, htick]
      exact hrun

end

end Ingress

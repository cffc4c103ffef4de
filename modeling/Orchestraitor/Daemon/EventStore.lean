import Orchestraitor.Audit.SqliteRuns
import Orchestraitor.Daemon.Cas

/-!
# The event log of the daemon (`store/sqlite.rs`)

`appendEvent` reads the hash of the last event, then the greatest sequence number, and then inserts: three
statements without a transaction.  Any number of appends run on one database, one statement at a time, and
any statement may fail.  `Fresh` says of an accepted insert that nothing was inserted since the append read
the last hash; what is inserted after it read the greatest number, the primary key rejects.
`append_events_chained` is what the log then is in every interleaving.
-/

namespace Daemon
open Base Base.Calls List
open Audit (Codec EventEnvelope AuditRecord HashDigest Continues)

/-! ## the table -/

/-- a row of `event_records`, without the columns that are never read; `monotonicSeq` is the primary key -/
structure EventRow where
  monotonicSeq : Nat
  recordHash : HashDigest
  recordJson : Bytes

/-- `SELECT MAX(monotonic_seq)` -/
def maxSequence (table : List EventRow) : Option Nat := (table.map (·.monotonicSeq)).max?

/-- `ORDER BY monotonic_seq DESC LIMIT 1` -/
def tailHash (table : List EventRow) : Option HashDigest :=
  (sortByKey EventRow.monotonicSeq table).getLast?.map (·.recordHash)

def insertEvent (table : List EventRow) (row : EventRow) : Except String (List EventRow) :=
  if table.any fun r => r.monotonicSeq = row.monotonicSeq then
    .error "UNIQUE constraint failed: event_records.monotonic_seq"
  else .ok (table ++ [row])

variable (c : Codec)

def readRecord (row : EventRow) : Except StoreError AuditRecord :=
  match c.parseRecord row.recordJson with
  | .error e => .error (.json e)
  | .ok record => .ok record

def liftEvent {α : Type} : Except Audit.EventError α → Except StoreError α
  | .error e => .error (.event e)
  | .ok a => .ok a

def loadEventRecords (table : List EventRow) : Except StoreError (List AuditRecord) := do
  let records ← (sortByKey EventRow.monotonicSeq table).mapM (readRecord c)
  liftEvent (Audit.validateHashChain c records)
  return records

/-! ## appending -/

inductive StoreQuery where
  | lastEventHash (caller : Nat)
  | maxSequence
  | insert (row : EventRow)

@[reducible] def StoreResult : StoreQuery → Type
  | .lastEventHash _ => Option HashDigest
  | .maxSequence => Option Nat
  | .insert _ => Unit

abbrev StoreAnswer (q : StoreQuery) : Type := Except String (StoreResult q)

def validateNextEvent (expectedSeq : Nat) (expectedPrev : Option HashDigest) (envelope : EventEnvelope) :
    Except StoreError Unit :=
  if envelope.monotonicSeq ≠ expectedSeq then
    .error (.event (.sequenceGap expectedSeq envelope.monotonicSeq))
  else if envelope.prevHash ≠ expectedPrev then
    .error (.event (.previousHashMismatch envelope.monotonicSeq))
  else .ok ()

def nextEventSequence : Option Nat → Nat
  | some value => satAdd64 value 1
  | none => 1

section append
variable (c : Codec) (toJson : AuditRecord → Except String Bytes)

def eventRow (record : AuditRecord) : Except StoreError EventRow :=
  match toJson record with
  | .error e => .error (.json e)
  | .ok recordJson =>
    if record.envelope.monotonicSeq > Audit.i64Max then .error .integerRange
    else .ok { monotonicSeq := record.envelope.monotonicSeq, recordHash := record.hash, recordJson }

def prepareEvent (last : Option HashDigest) (greatest : Option Nat) (envelope : EventEnvelope) :
    Except StoreError (AuditRecord × EventRow) := do
  validateNextEvent (nextEventSequence greatest) last envelope
  let record ← liftEvent (AuditRecord.tryFromEnvelope c envelope)
  let row ← eventRow toJson record
  return (record, row)

def insertPrepared : Except StoreError (AuditRecord × EventRow) →
    Calls StoreAnswer (Except StoreError AuditRecord)
  | .error e => .ret (.error e)
  | .ok prepared => .call (.insert prepared.2) fun
    | .error e => .ret (.error (.sqlite e))
    | .ok () => .ret (.ok prepared.1)

def appendEvent (caller : Nat) (envelope : EventEnvelope) :
    Calls StoreAnswer (Except StoreError AuditRecord) :=
  .call (.lastEventHash caller) fun
  | .error e => .ret (.error (.sqlite e))
  | .ok last => .call .maxSequence fun
    | .error e => .ret (.error (.sqlite e))
    | .ok greatest => insertPrepared (prepareEvent c toJson last greatest envelope)

end append

/-! ## the database -/

/-- the table, which of the coming statements fail, and how many rows each append saw when it read the last
hash -/
structure EventDatabase where
  table : List EventRow
  faults : List Bool
  seen : Nat → Nat

namespace EventDatabase

def empty (faults : List Bool) : EventDatabase := { table := [], faults, seen := fun _ => 0 }

def execute (db : EventDatabase) : (q : StoreQuery) → StoreAnswer q × EventDatabase
  | .lastEventHash caller =>
    (.ok (tailHash db.table), { db with seen := Function.update db.seen caller db.table.length })
  | .maxSequence => (.ok (maxSequence db.table), db)
  | .insert row => match insertEvent db.table row with
    | .error e => (.error e, db)
    | .ok table => (.ok (), { db with table })

def serve (db : EventDatabase) (q : StoreQuery) : StoreAnswer q × EventDatabase :=
  match db.faults with
  | true :: faults => (.error "database is locked", { db with faults })
  | false :: faults => execute { db with faults } q
  | [] => execute db q

end EventDatabase

abbrev EventPool := Pool Nat EventDatabase StoreAnswer (Except StoreError AuditRecord)

def appends (toJson : AuditRecord → Except String Bytes) (envelopes : Nat → EventEnvelope)
    (faults : List Bool) : EventPool :=
  Pool.start (.empty faults) fun i => appendEvent c toJson i (envelopes i)

/-! ## tables that hold a chain -/

/-- a row says what its record says -/
structure EventRowOf (c : Codec) (row : EventRow) (r : AuditRecord) : Prop where
  parses : c.parseRecord row.recordJson = .ok r
  sequence : row.monotonicSeq = r.envelope.monotonicSeq
  bounded : r.envelope.monotonicSeq ≤ Audit.i64Max
  hash : row.recordHash = r.hash

structure HoldsEvents (c : Codec) (table : List EventRow) (records : List AuditRecord) : Prop where
  rows : List.Forall₂ (EventRowOf c) table records
  chained : Chained (Continues c) records

namespace HoldsEvents
variable {c : Codec} {table : List EventRow} {records : List AuditRecord}

theorem nil : HoldsEvents c [] [] := ⟨.nil, chained_nil⟩

theorem concat (h : HoldsEvents c table records) {row : EventRow} {r : AuditRecord}
    (hrow : EventRowOf c row r) (hr : Continues c records.getLast? r) :
    HoldsEvents c (table ++ [row]) (records ++ [r]) :=
  ⟨rel_append h.rows (.cons hrow .nil), chained_concat.mpr ⟨h.chained, hr⟩⟩

theorem sequences (h : HoldsEvents c table records) :
    records.map (·.envelope.monotonicSeq) = range' 1 records.length := by
  apply Audit.sequences_of_chained h.chained
  intro r hr
  obtain ⟨row, -, hrow⟩ := exists_of_forall₂ h.rows hr
  exact hrow.bounded

theorem table_sequences (h : HoldsEvents c table records) :
    table.map (·.monotonicSeq) = range' 1 records.length := by
  rw [← h.sequences]
  exact map_eq_of_forall₂ h.rows fun _ _ hrow => hrow.sequence

theorem sorted (h : HoldsEvents c table records) :
    sortByKey EventRow.monotonicSeq table = table := by
  apply List.Pairwise.insertionSort_eq
  have hp : (table.map (·.monotonicSeq)).Pairwise (· ≤ ·) := by
    rw [h.table_sequences]
    exact pairwise_le_range'
  exact pairwise_map.mp hp

theorem load (h : HoldsEvents c table records) : loadEventRecords c table = .ok records := by
  have hmap : table.mapM (readRecord c) = .ok records :=
    mapM_of_forall₂ h.rows fun _ _ hrow => by rw [readRecord, hrow.parses]
  rw [loadEventRecords, h.sorted, hmap]
  show (liftEvent (Audit.validateHashChain c records) >>= fun _ => .ok records) = _
  rw [(Audit.validateHashChain_ok c records).mpr h.chained]
  rfl

theorem tailHash_eq (h : HoldsEvents c table records) :
    tailHash table = records.getLast?.map AuditRecord.hash := by
  have hmap : table.map (·.recordHash) = records.map AuditRecord.hash :=
    map_eq_of_forall₂ h.rows fun _ _ hrow => hrow.hash
  rw [tailHash, h.sorted, ← getLast?_map, hmap, getLast?_map]

theorem maxSequence_eq (h : HoldsEvents c table records) :
    maxSequence table = records.getLast?.map (·.envelope.monotonicSeq) := by
  rw [maxSequence, h.table_sequences, ← getLast?_map, h.sequences]
  cases hn : records.length with
  | zero => rfl
  | succ =>
    rw [range'_concat, getLast?_concat]
    refine max?_eq_some_iff.mpr ⟨by simp, fun b hb => ?_⟩
    rw [← range'_concat, mem_range'_1] at hb
    omega

theorem continues (h : HoldsEvents c table records) {r : AuditRecord}
    (hseq : r.envelope.monotonicSeq = nextEventSequence (maxSequence table))
    (hprev : r.envelope.prevHash = tailHash table)
    (hhash : Audit.hashEnvelope c r.envelope = .ok r.hash) : Continues c records.getLast? r := by
  refine ⟨?_, by rw [hprev, h.tailHash_eq], hhash⟩
  rw [hseq, h.maxSequence_eq]
  cases records.getLast? <;> rfl

end HoldsEvents

/-! ## what was prepared -/

def ReadsBack (toJson : AuditRecord → Except String Bytes) (envelope : EventEnvelope) : Prop :=
  ∀ record json, AuditRecord.tryFromEnvelope c envelope = .ok record → toJson record = .ok json →
    c.parseRecord json = .ok record

theorem liftEvent_ok {α : Type} {x : Except Audit.EventError α} {a : α} (h : liftEvent x = .ok a) :
    x = .ok a := by
  cases x with
  | error => cases h
  | ok => exact congrArg _ (Except.ok.inj h)

theorem validateNextEvent_ok {seq : Nat} {prev : Option HashDigest} {envelope : EventEnvelope}
    (h : validateNextEvent seq prev envelope = .ok ()) :
    envelope.monotonicSeq = seq ∧ envelope.prevHash = prev := by
  unfold validateNextEvent at h
  split_ifs at h with hs hp
  exact ⟨not_not.mp hs, not_not.mp hp⟩

theorem prepareEvent_ok {c : Codec} {toJson : AuditRecord → Except String Bytes}
    {last : Option HashDigest} {greatest : Option Nat} {envelope : EventEnvelope}
    {prepared : AuditRecord × EventRow} (hjson : ReadsBack c toJson envelope)
    (h : prepareEvent c toJson last greatest envelope = .ok prepared) :
    EventRowOf c prepared.2 prepared.1 ∧
      prepared.1.envelope.monotonicSeq = nextEventSequence greatest ∧
      prepared.1.envelope.prevHash = last ∧
      Audit.hashEnvelope c prepared.1.envelope = .ok prepared.1.hash := by
  obtain ⟨_, hvalid, h⟩ := bind_ok h
  obtain ⟨record, hrecord, h⟩ := bind_ok h
  obtain ⟨row, hrow, h⟩ := bind_ok h
  obtain rfl := Except.ok.inj h
  have hrecord := liftEvent_ok hrecord
  obtain ⟨hseq, hprev⟩ := validateNextEvent_ok hvalid
  obtain ⟨henv, hhash⟩ := Audit.tryFromEnvelope_ok.mp hrecord
  refine ⟨?_, by rw [henv, hseq], by rw [henv, hprev], by rw [henv, hhash]⟩
  unfold eventRow at hrow
  split at hrow
  · cases hrow
  · rename_i json htext
    split_ifs at hrow with hrange
    obtain rfl := Except.ok.inj hrow
    exact ⟨hjson record json hrecord htext, rfl, Nat.not_lt.mp hrange, rfl⟩

/-! ## the statements of one append -/

inductive AppendStage where
  | start
  | tail (last : Option HashDigest)
  | sequenced (last : Option HashDigest) (greatest : Option Nat)
  | ended

/-- the statements of an append, in their order -/
def appendMonitor (toJson : AuditRecord → Except String Bytes) (caller : Nat)
    (envelope : EventEnvelope) : Monitor StoreAnswer AppendStage where
  permits
    | .start, .lastEventHash who => who = caller
    | .tail _, .maxSequence => True
    | .sequenced last greatest, .insert row =>
      ∃ record, prepareEvent c toJson last greatest envelope = .ok (record, row)
    | _, _ => False
  expects _ _ _ := True
  next
    | _, .lastEventHash _, .ok last => .tail last
    | .tail last, .maxSequence, .ok greatest => .sequenced last greatest
    | _, _, _ => .ended

theorem appendEvent_keeps (toJson : AuditRecord → Except String Bytes) (caller : Nat)
    (envelope : EventEnvelope) : (appendEvent c toJson caller envelope).Keeps
      (appendMonitor c toJson caller envelope) (fun _ _ => True) .start := by
  refine ⟨rfl, fun hash _ => ?_⟩
  cases hash with
  | error => trivial
  | ok last =>
    refine ⟨trivial, fun sequence _ => ?_⟩
    cases sequence with
    | error => trivial
    | ok greatest =>
      show (insertPrepared (prepareEvent c toJson last greatest envelope)).Keeps _ _ _
      cases hprepared : prepareEvent c toJson last greatest envelope with
      | error => trivial
      | ok prepared =>
        refine ⟨⟨prepared.1, hprepared⟩, fun inserted _ => ?_⟩
        cases inserted <;> trivial

/-- an insert is the last statement of an append, which returns as the insert does -/
def InsertsLast : Calls StoreAnswer (Except StoreError AuditRecord) → Prop
  | .ret _ => True
  | .call (.insert _) k => (∃ record, k (.ok ()) = .ret (.ok record)) ∧ ∀ a, InsertsLast (k a)
  | .call (.lastEventHash _) k => ∀ a, InsertsLast (k a)
  | .call .maxSequence k => ∀ a, InsertsLast (k a)

theorem appendEvent_insertsLast (toJson : AuditRecord → Except String Bytes) (caller : Nat)
    (envelope : EventEnvelope) : InsertsLast (appendEvent c toJson caller envelope) := by
  intro hash
  cases hash with
  | error => trivial
  | ok last =>
    intro sequence
    cases sequence with
    | error => trivial
    | ok greatest =>
      show InsertsLast (insertPrepared (prepareEvent c toJson last greatest envelope))
      cases prepareEvent c toJson last greatest envelope with
      | error => trivial
      | ok prepared =>
        refine ⟨⟨prepared.1, rfl⟩, fun inserted => ?_⟩
        cases inserted <;> trivial

theorem InsertsLast.next {q : StoreQuery} {k : StoreAnswer q → Calls StoreAnswer (Except StoreError AuditRecord)}
    (h : InsertsLast (.call q k)) (a : StoreAnswer q) : InsertsLast (k a) := by
  cases q with
  | lastEventHash | maxSequence => exact h a
  | insert => exact h.2 a

/-! ## one statement -/

/-- when an insert is accepted, nothing was inserted since its append read the last hash -/
def Fresh (p : EventPool) (i : Nat) : Prop :=
  p.shared.table.length < (p.step EventDatabase.serve i).shared.table.length →
    p.shared.seen i = p.shared.table.length

instance (p : EventPool) (i : Nat) : Decidable (Fresh p i) := inferInstanceAs (Decidable (_ → _))

/-- what an append has read is the end of the table, if nothing was inserted since it read the last hash -/
def Read (i : Nat) : AppendStage → EventDatabase → Prop
  | .start, _ => True
  | .tail last, db => db.seen i ≤ db.table.length ∧
      (db.seen i = db.table.length → last = tailHash db.table)
  | .sequenced last greatest, db => db.seen i ≤ db.table.length ∧
      (db.seen i = db.table.length → last = tailHash db.table ∧ greatest = maxSequence db.table)
  | .ended, _ => True

section statements
variable {db db' : EventDatabase} {i : Nat} {stage : AppendStage}

theorem Read.congr (h : Read i stage db) (hseen : db'.seen i = db.seen i) (ht : db'.table = db.table) :
    Read i stage db' := by
  cases stage with
  | start | ended => trivial
  | tail last =>
    show db'.seen i ≤ db'.table.length ∧ (db'.seen i = db'.table.length → last = tailHash db'.table)
    rw [hseen, ht]
    exact h
  | sequenced last greatest =>
    show db'.seen i ≤ db'.table.length ∧ (db'.seen i = db'.table.length →
      last = tailHash db'.table ∧ greatest = maxSequence db'.table)
    rw [hseen, ht]
    exact h

theorem Read.inserted (h : Read i stage db) (hseen : db'.seen i = db.seen i)
    (ht : db.table.length < db'.table.length) : Read i stage db' := by
  have hold : ∀ P : Prop, db.seen i ≤ db.table.length →
      db'.seen i ≤ db'.table.length ∧ (db'.seen i = db'.table.length → P) := by
    intro _ _
    exact ⟨by omega, fun heq => by omega⟩
  cases stage with
  | start | ended => trivial
  | tail | sequenced => exact hold _ h.1

theorem insertEvent_ok {table table' : List EventRow} {row : EventRow}
    (h : insertEvent table row = .ok table') : table' = table ++ [row] := by
  unfold insertEvent at h
  split_ifs at h
  exact (Except.ok.inj h).symm

variable (db : EventDatabase)

theorem serve_cases (q : StoreQuery) : ∃ faults,
    db.serve q = (.error "database is locked", { db with faults }) ∨
      db.serve q = EventDatabase.execute { db with faults } q := by
  unfold EventDatabase.serve
  split
  · exact ⟨_, .inl rfl⟩
  · exact ⟨_, .inr rfl⟩
  · exact ⟨db.faults, .inr rfl⟩

theorem serve_lastEventHash (caller : Nat) : (db.serve (.lastEventHash caller)).2.table = db.table ∧
    (∀ j, j ≠ caller → (db.serve (.lastEventHash caller)).2.seen j = db.seen j) ∧
    ((∃ e, (db.serve (.lastEventHash caller)).1 = .error e) ∨
      ((db.serve (.lastEventHash caller)).1 = .ok (tailHash db.table) ∧
        (db.serve (.lastEventHash caller)).2.seen caller = db.table.length)) := by
  obtain ⟨faults, h | h⟩ := serve_cases db (.lastEventHash caller)
  · rw [h]
    exact ⟨rfl, fun _ _ => rfl, .inl ⟨_, rfl⟩⟩
  · rw [h]
    exact ⟨rfl, fun j hj => Function.update_of_ne hj .., .inr ⟨rfl, Function.update_self ..⟩⟩

theorem serve_maxSequence :
    (db.serve .maxSequence).2.table = db.table ∧ (db.serve .maxSequence).2.seen = db.seen ∧
    ((∃ e, (db.serve .maxSequence).1 = .error e) ∨
      (db.serve .maxSequence).1 = .ok (maxSequence db.table)) := by
  obtain ⟨faults, h | h⟩ := serve_cases db .maxSequence
  · rw [h]
    exact ⟨rfl, rfl, .inl ⟨_, rfl⟩⟩
  · rw [h]
    exact ⟨rfl, rfl, .inr rfl⟩

theorem serve_insert (row : EventRow) : (db.serve (.insert row)).2.seen = db.seen ∧
    (((∃ e, (db.serve (.insert row)).1 = .error e) ∧ (db.serve (.insert row)).2.table = db.table) ∨
      ((db.serve (.insert row)).1 = .ok () ∧ (db.serve (.insert row)).2.table = db.table ++ [row])) := by
  obtain ⟨faults, h | h⟩ := serve_cases db (.insert row)
  · rw [h]
    exact ⟨rfl, .inl ⟨⟨_, rfl⟩, rfl⟩⟩
  · rw [h, EventDatabase.execute]
    split
    · exact ⟨rfl, .inl ⟨⟨_, rfl⟩, rfl⟩⟩
    · rename_i table ht
      exact ⟨rfl, .inr ⟨rfl, insertEvent_ok ht⟩⟩

end statements

def Accounted (p : EventPool) (i : Nat) : Prop :=
  (p.step EventDatabase.serve i).shared.table = p.shared.table ∨
    ∃ record, (p.step EventDatabase.serve i).prog i = .ret (.ok record)

theorem accounted_of_insertsLast {p : EventPool} {i : Nat} (h : InsertsLast (p.prog i)) :
    Accounted p i := by
  unfold Accounted
  cases hp : p.prog i with
  | ret a =>
    rw [Pool.step_ended ⟨a, hp⟩]
    exact .inl rfl
  | call q =>
    rw [Pool.step_call hp]
    rw [hp] at h
    cases q with
    | lastEventHash caller => exact .inl (serve_lastEventHash p.shared caller).1
    | maxSequence => exact .inl (serve_maxSequence p.shared).1
    | insert row =>
      obtain ⟨_, ⟨_, ht⟩ | ⟨hok, _⟩⟩ := serve_insert p.shared row
      · exact .inl ht
      · obtain ⟨record, hret⟩ := h.1
        refine .inr ⟨record, ?_⟩
        rw [← hret, ← hok]
        exact Function.update_self ..

theorem InsertsLast.step {p : EventPool} (h : ∀ j, InsertsLast (p.prog j)) (i j : Nat) :
    InsertsLast ((p.step EventDatabase.serve i).prog j) := by
  cases hp : p.prog i with
  | ret a =>
    rw [Pool.step_ended ⟨a, hp⟩]
    exact h j
  | call =>
    rw [Pool.step_call hp]
    have hi := h i
    rw [hp] at hi
    by_cases hj : j = i
    · subst hj
      simpa only [Function.update_self] using hi.next _
    · simpa only [Function.update_of_ne hj] using h j

/-! ## every interleaving -/

section runs
variable {c : Codec} {toJson : AuditRecord → Except String Bytes} {envelopes : Nat → EventEnvelope}

/-- what a fresh statement of `i` leaves -/
structure Statement (c : Codec) (toJson : AuditRecord → Except String Bytes)
    (envelopes : Nat → EventEnvelope) (i : Nat) (stage : AppendStage) (db : EventDatabase)
    (q : StoreQuery) : Prop where
  own : Read i ((appendMonitor c toJson i (envelopes i)).next stage q (db.serve q).1) (db.serve q).2
  others : ∀ j, j ≠ i → ∀ other, Read j other db → Read j other (db.serve q).2
  holds : ∃ records, HoldsEvents c (db.serve q).2.table records

theorem Read.error {i : Nat} {stage : AppendStage} {q : StoreQuery} {db : EventDatabase} {e : String} :
    Read i ((appendMonitor c toJson i (envelopes i)).next stage q (.error e)) db := by
  cases stage <;> cases q <;> trivial

variable {db : EventDatabase} {i : Nat} {records : List AuditRecord} {last : Option HashDigest}
  {greatest : Option Nat}

theorem statement_lastEventHash (hh : HoldsEvents c db.table records) :
    Statement c toJson envelopes i .start db (.lastEventHash i) := by
  obtain ⟨ht, hseen, hanswer⟩ := serve_lastEventHash db i
  refine ⟨?_, fun j hj other hr => hr.congr (hseen j hj) ht, records, by rwa [ht]⟩
  rcases hanswer with ⟨e, he⟩ | ⟨hok, hsaw⟩
  · rw [he]
    exact Read.error
  · rw [hok]
    show _ ≤ _ ∧ (_ → _)
    rw [hsaw, ht]
    exact ⟨le_refl _, fun _ => rfl⟩

theorem statement_maxSequence (hh : HoldsEvents c db.table records) (hr : Read i (.tail last) db) :
    Statement c toJson envelopes i (.tail last) db .maxSequence := by
  obtain ⟨ht, hseen, hanswer⟩ := serve_maxSequence db
  refine ⟨?_, fun j _ other hr => hr.congr (congrFun hseen j) ht, records, by rwa [ht]⟩
  rcases hanswer with ⟨e, he⟩ | hok
  · rw [he]
    exact Read.error
  · rw [hok]
    show _ ≤ _ ∧ (_ → _ ∧ _)
    rw [hseen, ht]
    exact ⟨hr.1, fun heq => ⟨hr.2 heq, rfl⟩⟩

theorem statement_insert (hjson : ReadsBack c toJson (envelopes i))
    (hh : HoldsEvents c db.table records) (hr : Read i (.sequenced last greatest) db) {row : EventRow}
    {record : AuditRecord}
    (hfresh : db.table.length < (db.serve (.insert row)).2.table.length → db.seen i = db.table.length)
    (hprepared : prepareEvent c toJson last greatest (envelopes i) = .ok (record, row)) :
    Statement c toJson envelopes i (.sequenced last greatest) db (.insert row) := by
  obtain ⟨hseen, ⟨_, ht⟩ | ⟨_, ht⟩⟩ := serve_insert db row
  · exact ⟨trivial, fun j _ other hr => hr.congr (congrFun hseen j) ht, records, by rwa [ht]⟩
  · have hlength : db.table.length < (db.serve (.insert row)).2.table.length := by
      rw [ht, length_append]
      exact Nat.lt_succ_self _
    refine ⟨trivial, fun j _ other hr => hr.inserted (congrFun hseen j) hlength, ?_⟩
    · -- what was read is the end of the table now
      obtain ⟨hlast, hgreatest⟩ := hr.2 (hfresh hlength)
      obtain ⟨hrow, hseq, hprev, hhash⟩ := prepareEvent_ok hjson hprepared
      rw [hgreatest] at hseq
      rw [hlast] at hprev
      exact ⟨records ++ [record], by rw [ht]; exact hh.concat hrow (hh.continues hseq hprev hhash)⟩

/-- the appends are as far as they have read, and the table holds a chain -/
structure Continued (c : Codec) (toJson : AuditRecord → Except String Bytes)
    (envelopes : Nat → EventEnvelope) (p : EventPool) : Prop where
  follows : p.Follows (fun i => appendMonitor c toJson i (envelopes i)) .start (fun _ _ _ => True) Read
  holds : ∃ records, HoldsEvents c p.shared.table records

theorem Continued.step (hjson : ∀ i, ReadsBack c toJson (envelopes i)) {p : EventPool}
    (h : Continued c toJson envelopes p) (i : Nat) (hfresh : Fresh p i) :
    Continued c toJson envelopes (p.step EventDatabase.serve i) := by
  obtain ⟨records, hh⟩ := h.holds
  have hread := (h.follows i).2
  have hstatement : ∀ q, p.Asks i q → (appendMonitor c toJson i (envelopes i)).permits
      (p.known (fun i => appendMonitor c toJson i (envelopes i)) .start i) q →
      Statement c toJson envelopes i
        (p.known (fun i => appendMonitor c toJson i (envelopes i)) .start i) p.shared q := by
    intro q hq hpermits
    revert hread hpermits
    generalize p.known (fun i => appendMonitor c toJson i (envelopes i)) .start i = stage
    intro hread hpermits
    cases q with
    | lastEventHash who =>
      cases stage with
      | start =>
        obtain rfl : who = i := hpermits
        exact statement_lastEventHash hh
      | tail | sequenced | ended => exact hpermits.elim
    | maxSequence =>
      cases stage with
      | tail => exact statement_maxSequence hh hread
      | start | sequenced | ended => exact hpermits.elim
    | insert =>
      cases stage with
      | sequenced =>
        obtain ⟨record, hprepared⟩ := hpermits
        obtain ⟨k, hk⟩ := hq
        rw [Fresh, Pool.step_call hk] at hfresh
        exact statement_insert (hjson i) hh hread hfresh hprepared
      | start | tail | ended => exact hpermits.elim
  constructor
  · refine h.follows.step (fun q hq hp => ⟨trivial, (hstatement q hq hp).own⟩) fun q hq hp j hj => ?_
    exact (hstatement q hq hp).others j hj _ (h.follows j).2
  · cases hp : p.prog i with
    | ret a =>
      rw [Pool.step_ended ⟨a, hp⟩]
      exact h.holds
    | call q k =>
      have hkeeps := (h.follows i).1
      rw [hp] at hkeeps
      rw [Pool.step_call hp]
      exact (hstatement q ⟨k, hp⟩ hkeeps.1).holds

end runs

/-- In every interleaving a rejected append leaves the table as it is, and when no insert is accepted on what
its append read too early the table holds a chain. -/
theorem append_events_chained (c : Codec) (toJson : AuditRecord → Except String Bytes)
    (envelopes : Nat → EventEnvelope) (faults : List Bool) (schedule : List Nat) :
    Pool.Along EventDatabase.serve Accounted (appends c toJson envelopes faults) schedule ∧
    ((∀ i, ReadsBack c toJson (envelopes i)) →
      Pool.Along EventDatabase.serve Fresh (appends c toJson envelopes faults) schedule →
      ∃ records, loadEventRecords c
          ((appends c toJson envelopes faults).run EventDatabase.serve schedule).shared.table =
          .ok records ∧
        records.map (·.envelope.monotonicSeq) = List.range' 1 records.length) := by
  constructor
  · have hkeeps : ∀ (p : EventPool) i, (∀ j, InsertsLast (p.prog j)) →
        ∀ j, InsertsLast ((p.step EventDatabase.serve i).prog j) := fun _ i h => InsertsLast.step h i
    exact Pool.Along.of_keeps hkeeps (fun _ i h => accounted_of_insertsLast (h i))
      fun j => appendEvent_insertsLast c toJson j (envelopes j)
  · intro hjson hfresh
    have hstart : Continued c toJson envelopes (appends c toJson envelopes faults) :=
      { follows := Pool.Follows.start (fun i => appendEvent_keeps c toJson i (envelopes i))
          fun _ => trivial
        holds := ⟨[], .nil⟩ }
    have hstep : ∀ p i, Continued c toJson envelopes p → Fresh p i →
        Continued c toJson envelopes (p.step EventDatabase.serve i) := fun _ i hp hi => hp.step hjson i hi
    obtain ⟨records, hh⟩ := (Pool.run_invariant hstep hstart hfresh).holds
    exact ⟨records, hh.load, hh.sequences⟩

/-! ## two connections -/

def tick (seq : Nat) (prevHash : Option HashDigest) : EventEnvelope :=
  { schemaVersion := 1, monotonicSeq := seq, wallClockTs := "2026-01-01T00:00:00Z", correlationId := "tick"
    parentOpId := none, category := .sessionLifecycle, payload := .null, prevHash }

def tickHash (seq : Nat) : HashDigest := String.ofList (List.replicate seq 'h')

def tickCodec : Codec where
  canonicalEnvelope envelope := .ok [UInt8.ofNat envelope.monotonicSeq]
  canonicalRecord record := .ok [UInt8.ofNat record.envelope.monotonicSeq]
  parseEnvelope _ := .error "unused"
  parseRecord
    | [seq, 0] => .ok { envelope := tick seq.toNat none, hash := tickHash seq.toNat }
    | [seq, prev] => .ok { envelope := tick seq.toNat (some (tickHash prev.toNat)), hash := tickHash seq.toNat }
    | _ => .error "expected two bytes"
  sha256Hex bytes := tickHash (bytes.map UInt8.toNat).sum

def tickJson (record : AuditRecord) : Except String Bytes :=
  .ok [UInt8.ofNat record.envelope.monotonicSeq,
    UInt8.ofNat ((record.envelope.prevHash.map (·.toList.length)).getD 0)]

def ticks : Nat → EventEnvelope
  | 0 => tick 1 none
  | 1 => tick 2 (some (tickHash 1))
  | _ => tick 3 (some (tickHash 1))

theorem ticks_readBack (i : Nat) : ReadsBack tickCodec tickJson (ticks i) := by
  intro record _ hrecord hjson
  obtain ⟨henv, hhash⟩ := Audit.tryFromEnvelope_ok.mp hrecord
  obtain ⟨envelope, hash⟩ := record
  obtain rfl : envelope = ticks i := henv
  obtain rfl := Except.ok.inj hhash
  obtain rfl := Except.ok.inj hjson
  match i with
  | 0 => rfl
  | 1 => rfl
  | n + 2 => rfl

/-- two appends one after the other, and a third that is rejected -/
theorem append_events_chained_ticks :
    Pool.Along EventDatabase.serve Fresh (appends tickCodec tickJson ticks [])
      [0, 0, 0, 1, 1, 1, 2, 2] ∧
    ∃ records, loadEventRecords tickCodec ((appends tickCodec tickJson ticks []).run
        EventDatabase.serve [0, 0, 0, 1, 1, 1, 2, 2]).shared.table = .ok records ∧
      records.map (·.envelope.monotonicSeq) = List.range' 1 records.length := by
  have hfresh : Pool.Along EventDatabase.serve Fresh (appends tickCodec tickJson ticks [])
      [0, 0, 0, 1, 1, 1, 2, 2] := by decide +kernel
  exact ⟨hfresh, (append_events_chained tickCodec tickJson ticks [] _).2 ticks_readBack hfresh⟩

/-- another connection inserts between the two reads of an append: its event is accepted, and the log does
not load -/
theorem stale_hash_accepted :
    ((appends tickCodec tickJson ticks []).run EventDatabase.serve
      [0, 0, 0, 2, 1, 1, 1, 2, 2]).prog 2 = .ret (.ok ⟨ticks 2, tickHash 3⟩) ∧
    loadEventRecords tickCodec ((appends tickCodec tickJson ticks []).run EventDatabase.serve
      [0, 0, 0, 2, 1, 1, 1, 2, 2]).shared.table = .error (.event (.previousHashMismatch 3)) :=
  ⟨rfl, rfl⟩

end Daemon

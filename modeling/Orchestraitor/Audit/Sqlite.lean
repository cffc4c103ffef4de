import Orchestraitor.Audit.Store
import Orchestraitor.Base.Layers

/-!
# The SQLite audit store (`sqlite.rs`)

One table, any number of connections.  A transaction is one step; so is the `data_version` read that
ends an import, after its commit.  A connection sees `data_version` change when another one commits.

* `trustedHead`            the cached head where it is proven current, else the checked table's.
-/

namespace Audit
open Base

/-! ## the table -/

def i64Max : Nat := 9223372036854775807

def categoryJson : EventCategory → String
  | .sessionLifecycle => "\"session_lifecycle\""
  | .adapterLifecycle => "\"adapter_lifecycle\""
  | .modelRequest => "\"model_request\""
  | .modelResponseMetadata => "\"model_response_metadata\""
  | .contextSelection => "\"context_selection\""
  | .toolRequest => "\"tool_request\""
  | .actionPlan => "\"action_plan\""
  | .policyDecision => "\"policy_decision\""
  | .approval => "\"approval\""
  | .processExecution => "\"process_execution\""
  | .networkRequest => "\"network_request\""
  | .secretUse => "\"secret_use\""
  | .fileObservation => "\"file_observation\""
  | .gitOperation => "\"git_operation\""
  | .outputPromotion => "\"output_promotion\""
  | .sandboxCapability => "\"sandbox_capability\""
  | .resourceUsage => "\"resource_usage\""
  | .error => "\"error\""
  | .securityFinding => "\"security_finding\""
  | .agentReasoning => "\"agent_reasoning\""

/-- a row of `audit_records`: `monotonic_seq` is the primary key, `hash` is unique -/
structure Row where
  monotonicSeq : Nat
  category : String
  schemaVersion : Nat
  hash : String
  envelopeJson : Bytes

variable (c : Codec)

def decodeEnvelope (envelopeJson : Bytes) (storedHash : String) :
    Except EventError AuditRecord :=
  match c.parseEnvelope envelopeJson with
  | .error e => .error (.json e)
  | .ok envelope => do
    let computed ← hashEnvelope c envelope
    if computed ≠ storedHash then .error (.recordHashMismatch envelope.monotonicSeq)
    else .ok { envelope, hash := computed }

def loadRow (row : Row) : Except EventError AuditRecord := do
  let record ← decodeEnvelope c row.envelopeJson row.hash
  let sequence := record.envelope.monotonicSeq
  if ¬ (sequence ≤ i64Max ∧ sequence = row.monotonicSeq) then
    .error (.recordHashMismatch sequence)
  else if categoryJson record.envelope.category ≠ row.category ∨
      record.envelope.schemaVersion ≠ row.schemaVersion then
    .error (.recordHashMismatch sequence)
  else .ok record

def loadVerifiedRecords (table : List Row) : Except EventError (List AuditRecord) := do
  let records ← (sortByKey Row.monotonicSeq table).mapM (loadRow c)
  validateHashChain c records
  return records

def headRecord (table : List Row) : Except EventError (Option AuditRecord) := do
  let records ← loadVerifiedRecords c table
  return records.getLast?

def nextTableSequence (table : List Row) : Nat :=
  satAdd64 (table.foldl (fun n row => max n row.monotonicSeq) 0) 1

def insertRow (table : List Row) (record : AuditRecord) :
    Except EventError (List Row) :=
  let sequence := record.envelope.monotonicSeq
  if sequence > i64Max then .error (.sequenceGap 1 sequence)
  else match c.canonicalEnvelope record.envelope with
    | .error e => .error (.canonicalJson e)
    | .ok envelopeJson =>
      if table.any (fun row => row.monotonicSeq = sequence) then
        .error (.sequenceGap (nextTableSequence table) sequence)
      else if table.any (fun row => row.hash = record.hash) then
        .error (.sqlite "UNIQUE constraint failed: audit_records.hash")
      else .ok (table ++ [{
        monotonicSeq := sequence, category := categoryJson record.envelope.category,
        schemaVersion := record.envelope.schemaVersion, hash := record.hash, envelopeJson }])

/-! ## connections -/

structure Connection where
  cachedDataVersion : Int
  verifiedHead : Option AuditRecord

def Connection.new : Connection := { cachedDataVersion := -1, verifiedHead := none }

/-- `trusted_head_with_version` inside a transaction that sees `table` and `dataVersion` -/
def trustedHead (conn : Connection) (table : List Row) (dataVersion : Int) :
    Except EventError (Option AuditRecord) :=
  match conn.verifiedHead with
  | none => headRecord c table
  | some cached =>
    if dataVersion ≠ conn.cachedDataVersion then headRecord c table
    else if cached.envelope.monotonicSeq > i64Max then
      .error (.sequenceGap 1 cached.envelope.monotonicSeq)
    else match table.find? (fun row => row.monotonicSeq = cached.envelope.monotonicSeq) with
      | some row => if row.hash = cached.hash then .ok (some cached) else headRecord c table
      | none => headRecord c table

def validateAgainstHead (head : Option AuditRecord) (envelope : EventEnvelope) :
    Except EventError Unit :=
  match head with
  | some record => validateNextEnvelope [record] envelope
  | none =>
    if envelope.monotonicSeq ≠ 1 ∨ envelope.prevHash.isSome then
      .error (.sequenceGap 1 envelope.monotonicSeq)
    else .ok ()

def appendTransaction (conn : Connection) (table : List Row) (dataVersion : Int)
    (envelope : EventEnvelope) : Except EventError (AuditRecord × List Row) := do
  let head ← trustedHead c conn table dataVersion
  validateAgainstHead head envelope
  let record ← AuditRecord.tryFromEnvelope c envelope
  let table ← insertRow c table record
  return (record, table)

/-- an import up to its commit: every row deleted, the validated records inserted -/
def importTransaction (bytes : Bytes) :
    Except EventError (List AuditRecord × List Row) := do
  let imported ← parseLines c bytes
  validateHashChain c imported
  let table ← imported.foldlM (insertRow c) []
  return (imported, table)

/-! ## interleavings -/

/-- one database and its connections; `commits` lists who committed, and a connection in `reading`
has committed an import and not yet read `data_version` -/
structure Database (ι : Type) where
  table : List Row
  commits : List ι
  connections : ι → Connection
  reading : ι → Bool

inductive Step (ι : Type) where
  | append (conn : ι) (envelope : EventEnvelope)
  | importCommit (conn : ι) (bytes : Bytes)
  /-- the last statement of an import; a failed read keeps the cached version -/
  | readVersion (conn : ι) (succeeds : Bool)

namespace Database
variable {ι : Type} [DecidableEq ι]

def fresh : Database ι :=
  { table := [], commits := [], connections := fun _ => .new, reading := fun _ => false }

/-- `PRAGMA data_version` on a connection: it changes when another connection commits -/
def dataVersion (db : Database ι) (i : ι) : Int := db.commits.countP (fun j => j ≠ i)

def commit (db : Database ι) (i : ι) (table : List Row) (conn : Connection) (reading : Bool) :
    Database ι :=
  { table, commits := db.commits ++ [i], connections := Function.update db.connections i conn,
    reading := Function.update db.reading i reading }

def append (c : Codec) (db : Database ι) (i : ι) (envelope : EventEnvelope) :
    Except EventError AuditRecord × Database ι :=
  match appendTransaction c (db.connections i) db.table (db.dataVersion i) envelope with
  | .error e => (.error e, db)
  | .ok (record, table) => (.ok record, db.commit i table
      { cachedDataVersion := db.dataVersion i, verifiedHead := some record } false)

def step (c : Codec) (db : Database ι) : Step ι → Database ι
  | .append i envelope => if db.reading i then db else (db.append c i envelope).2
  | .importCommit i bytes =>
    if db.reading i then db
    else match importTransaction c bytes with
      | .error _ => db
      | .ok (imported, table) => db.commit i table
          { db.connections i with verifiedHead := imported.getLast? } true
  | .readVersion i succeeds =>
    if db.reading i then
      { db with
        connections := Function.update db.connections i
          (if succeeds then { db.connections i with cachedDataVersion := db.dataVersion i }
            else db.connections i)
        reading := Function.update db.reading i false }
    else db

def run (c : Codec) (db : Database ι) (steps : List (Step ι)) : Database ι :=
  steps.foldl (step c) db

end Database

end Audit

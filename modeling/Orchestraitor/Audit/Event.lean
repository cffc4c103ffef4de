import Orchestraitor.Base.Chain

/-!
# Audit events and their hash chain (`orchestraitor-events/src/{schema,hash}.rs`)

An event is wrapped in an envelope that names its place in the log and the hash of the record before
it; a record pairs the envelope with its own hash.  Serialization and SHA-256 come from other
crates: they are the fields of a `Codec`, and every result holds for any of them.

* `Continues c p r`       the record `r` is a correct continuation of a log that ends in `p`.
-/

namespace Audit
open Base

/-! ## envelopes and records -/

/-- `serde_json::Value` as the canonicalizer writes it: keys in its order, and a number as its text (`1` for
`1.0`), which nothing here looks into -/
inductive Value where
  | null
  | bool (b : Bool)
  | number (text : String)
  | string (text : String)
  | array (items : List Value)
  | object (fields : List (String × Value))

inductive EventCategory where
  | sessionLifecycle | adapterLifecycle | modelRequest | modelResponseMetadata | contextSelection
  | toolRequest | actionPlan | policyDecision | approval | processExecution | networkRequest
  | secretUse | fileObservation | gitOperation | outputPromotion | sandboxCapability
  | resourceUsage | error | securityFinding | agentReasoning
  deriving DecidableEq

abbrev HashDigest := String

structure EventEnvelope where
  schemaVersion : Nat
  monotonicSeq : Nat
  wallClockTs : String
  correlationId : String
  parentOpId : Option String
  category : EventCategory
  payload : Value
  prevHash : Option HashDigest

structure AuditRecord where
  envelope : EventEnvelope
  hash : HashDigest

inductive EventError where
  | canonicalJson (cause : String)
  | json (cause : String)
  | sequenceGap (expected observed : Nat)
  | previousHashMismatch (sequence : Nat)
  | recordHashMismatch (sequence : Nat)
  | sqlite (cause : String)
  deriving DecidableEq

abbrev Bytes := List UInt8

structure Codec where
  canonicalEnvelope : EventEnvelope → Except String Bytes
  canonicalRecord : AuditRecord → Except String Bytes
  parseEnvelope : Bytes → Except String EventEnvelope
  parseRecord : Bytes → Except String AuditRecord
  sha256Hex : Bytes → HashDigest

/-! ## hashing -/

def hashEnvelope (c : Codec) (envelope : EventEnvelope) : Except EventError HashDigest :=
  match c.canonicalEnvelope envelope with
  | .error e => .error (.canonicalJson e)
  | .ok canonical => .ok (c.sha256Hex canonical)

def AuditRecord.tryFromEnvelope (c : Codec) (envelope : EventEnvelope) :
    Except EventError AuditRecord := do
  let hash ← hashEnvelope c envelope
  return { envelope, hash }

/-- the loop body: the state is the sequence number and the previous hash that it expects -/
def validateRecord (c : Codec) (expected : Nat × Option HashDigest) (record : AuditRecord) :
    Except EventError (Nat × Option HashDigest) :=
  let sequence := record.envelope.monotonicSeq
  if sequence ≠ expected.1 then .error (.sequenceGap expected.1 sequence)
  else if record.envelope.prevHash ≠ expected.2 then .error (.previousHashMismatch sequence)
  else do
    let computed ← hashEnvelope c record.envelope
    if computed ≠ record.hash then .error (.recordHashMismatch sequence)
    else .ok (satAdd64 expected.1 1, some computed)

def validateHashChain (c : Codec) (records : List AuditRecord) : Except EventError Unit := do
  let _ ← records.foldlM (validateRecord c) (1, none)
  return ()

/-! ## the chain condition -/

def nextSequence : Option AuditRecord → Nat
  | some record => satAdd64 record.envelope.monotonicSeq 1
  | none => 1

structure Continues (c : Codec) (p : Option AuditRecord) (r : AuditRecord) : Prop where
  sequence : r.envelope.monotonicSeq = nextSequence p
  link : r.envelope.prevHash = p.map AuditRecord.hash
  hashed : hashEnvelope c r.envelope = .ok r.hash

theorem tryFromEnvelope_ok {c : Codec} {e : EventEnvelope} {r : AuditRecord} :
    AuditRecord.tryFromEnvelope c e = .ok r ↔ r.envelope = e ∧ hashEnvelope c e = .ok r.hash := by
  constructor
  · intro h
    obtain ⟨hash, hh, hr⟩ := bind_ok h
    obtain rfl := Except.ok.inj hr
    exact ⟨rfl, hh⟩
  · rintro ⟨rfl, h⟩
    rw [AuditRecord.tryFromEnvelope, h]
    rfl

theorem validateRecord_ok (c : Codec) (p : Option AuditRecord) (r : AuditRecord)
    (s : Nat × Option HashDigest) :
    validateRecord c (nextSequence p, p.map AuditRecord.hash) r = .ok s ↔
      Continues c p r ∧ s = (nextSequence (some r), some r.hash) := by
  unfold validateRecord
  constructor
  · intro h
    dsimp only at h
    split_ifs at h with hs hp
    obtain ⟨computed, hc, h⟩ := bind_ok h
    split_ifs at h with hh
    rw [not_not] at hs hp hh
    subst hh
    refine ⟨⟨hs, hp, hc⟩, ?_⟩
    rw [← Except.ok.inj h, nextSequence, hs]
  · rintro ⟨⟨hs, hp, hh⟩, rfl⟩
    simp only [hs, hp, hh, nextSequence]
    simp [bind, Except.bind]

theorem validateHashChain_ok (c : Codec) (records : List AuditRecord) :
    validateHashChain c records = .ok () ↔ Chained (Continues c) records := by
  have hloop := foldlM_chained (validateRecord c)
    (fun p => (nextSequence p, p.map AuditRecord.hash)) (validateRecord_ok c) records
  constructor
  · intro h
    obtain ⟨s, hs, _⟩ := bind_ok h
    exact ((hloop s).mp hs).1
  · intro h
    rw [validateHashChain, show records.foldlM (validateRecord c) (1, none) = _ from
      (hloop _).mpr ⟨h, rfl⟩]
    rfl

end Audit

import Orchestraitor.Audit.Redaction

/-!
# The in-memory audit store (`store.rs`)

An appended envelope is checked against the last record; an import replaces the history by a validated one.
-/

namespace Audit
open Base AuditRecord

/-! ## the source functions -/

def validateNextEnvelope (records : List AuditRecord) (envelope : EventEnvelope) :
    Except EventError Unit :=
  let expectedSequence := nextSequence records.getLast?
  if envelope.monotonicSeq ≠ expectedSequence then
    .error (.sequenceGap expectedSequence envelope.monotonicSeq)
  else if envelope.prevHash ≠ records.getLast?.map AuditRecord.hash then
    .error (.previousHashMismatch envelope.monotonicSeq)
  else .ok ()

theorem validateNextEnvelope_ok (records : List AuditRecord) (e : EventEnvelope) :
    validateNextEnvelope records e = .ok () ↔ e.monotonicSeq = nextSequence records.getLast? ∧
        e.prevHash = records.getLast?.map hash := by
  unfold validateNextEnvelope
  by_cases h : e.monotonicSeq = nextSequence records.getLast?
  · by_cases h' : e.prevHash = records.getLast?.map hash <;> simp [h]
  · simp [h]

def newline : UInt8 := 10

def parseLines (c : Codec) (bytes : Bytes) : Except EventError (List AuditRecord) :=
  ((bytes.splitOn newline).filter (fun line => !line.isEmpty)).mapM fun line =>
    match c.parseRecord line with
    | .error e => .error (.json e)
    | .ok record => .ok record

def exportRecord (c : Codec) (mode : PrivacyExportMode) (st : Bytes × Option HashDigest)
    (record : AuditRecord) : Except EventError (Bytes × Option HashDigest) := do
  let exported ← AuditRecord.tryFromEnvelope c { redactEvent record mode with prevHash := st.2 }
  match c.canonicalRecord exported with
  | .error e => .error (.canonicalJson e)
  | .ok line => .ok (st.1 ++ line ++ [newline], some exported.hash)

def exportRecords (c : Codec) (records : List AuditRecord) (mode : PrivacyExportMode) :
    Except EventError Bytes := do
  let (output, _) ← records.foldlM (exportRecord c mode) ([], none)
  return output

structure InMemoryAuditStore where
  records : List AuditRecord

namespace InMemoryAuditStore

def empty : InMemoryAuditStore := ⟨[]⟩

variable (c : Codec) (s : InMemoryAuditStore)

def append (s : InMemoryAuditStore) (envelope : EventEnvelope) :
    Except EventError AuditRecord × InMemoryAuditStore :=
  match validateNextEnvelope s.records envelope with
  | .error e => (.error e, s)
  | .ok () =>
    match AuditRecord.tryFromEnvelope c envelope with
    | .error e => (.error e, s)
    | .ok record => (.ok record, ⟨s.records ++ [record]⟩)

def exportLog (s : InMemoryAuditStore) (mode : PrivacyExportMode) :
    Except EventError Bytes := exportRecords c s.records mode

def importLog (s : InMemoryAuditStore) (bytes : Bytes) :
    Except EventError (List AuditRecord) × InMemoryAuditStore :=
  match parseLines c bytes with
  | .error e => (.error e, s)
  | .ok imported =>
    match validateHashChain c imported with
    | .error e => (.error e, s)
    | .ok () => (.ok imported, ⟨imported⟩)

def appendAll (s : InMemoryAuditStore) (envelopes : List EventEnvelope) :
    Except EventError InMemoryAuditStore :=
  envelopes.foldlM (fun s envelope =>
    match s.append c envelope with
    | (.ok _, s') => .ok s'
    | (.error e, _) => .error e) s

inductive Call where
  | append (envelope : EventEnvelope)
  | importLog (bytes : Bytes)

def call (s : InMemoryAuditStore) : Call → Option EventError × InMemoryAuditStore
  | .append envelope =>
    match s.append c envelope with
    | (.ok _, s') => (none, s')
    | (.error e, s') => (some e, s')
  | .importLog bytes =>
    match s.importLog c bytes with
    | (.ok _, s') => (none, s')
    | (.error e, s') => (some e, s')

def run (s : InMemoryAuditStore) (calls : List Call) : InMemoryAuditStore :=
  calls.foldl (fun s call => (s.call c call).2) s

/-! ## what a call can do -/

theorem append_cases (e : EventEnvelope) : (∃ err, s.append c e = (.error err, s)) ∨
      ∃ r, r.envelope = e ∧ Continues c s.records.getLast? r ∧
        s.append c e = (.ok r, ⟨s.records ++ [r]⟩) := by
  unfold append
  cases hv : validateNextEnvelope s.records e with
  | error err => exact Or.inl ⟨err, rfl⟩
  | ok =>
    cases hr : tryFromEnvelope c e with
    | error err => exact Or.inl ⟨err, rfl⟩
    | ok r =>
      obtain ⟨rfl, hh⟩ := tryFromEnvelope_ok.mp hr
      obtain ⟨hs, hp⟩ := (validateNextEnvelope_ok s.records r.envelope).mp hv
      exact Or.inr ⟨r, rfl, ⟨hs, hp, hh⟩, rfl⟩

theorem append_of_continues {c : Codec} {s : InMemoryAuditStore} {r : AuditRecord}
    (h : Continues c s.records.getLast? r) :
    s.append c r.envelope = (.ok r, ⟨s.records ++ [r]⟩) := by
  have hv := (validateNextEnvelope_ok s.records r.envelope).mpr ⟨h.sequence, h.link⟩
  have hr : tryFromEnvelope c r.envelope = .ok r :=
    tryFromEnvelope_ok.mpr ⟨rfl, h.hashed⟩
  simp only [append, hv, hr]

theorem importLog_cases (bytes : Bytes) : (∃ err, s.importLog c bytes = (.error err, s)) ∨
      ∃ records, parseLines c bytes = .ok records ∧ Chained (Continues c) records ∧
        s.importLog c bytes = (.ok records, ⟨records⟩) := by
  unfold importLog
  cases hp : parseLines c bytes with
  | error err => exact Or.inl ⟨err, rfl⟩
  | ok records =>
    cases hv : validateHashChain c records with
    | error err => exact Or.inl ⟨err, by simp [hv]⟩
    | ok => exact Or.inr ⟨records, rfl, (validateHashChain_ok c records).mp hv, by simp [hv]⟩

theorem call_cases (call : Call) : (∃ err, s.call c call = (some err, s)) ∨
      ((s.call c call).1 = none ∧ (Chained (Continues c) s.records →
        Chained (Continues c) (s.call c call).2.records)) := by
  cases call with
  | append e =>
    obtain ⟨err, h⟩ | ⟨r, _, hr, h⟩ := append_cases c s e
    · exact Or.inl ⟨err, by simp [InMemoryAuditStore.call, h]⟩
    · refine Or.inr ⟨by simp [InMemoryAuditStore.call, h], fun hs => ?_⟩
      have hc : Chained (Continues c) (s.records ++ [r]) := chained_concat.mpr ⟨hs, hr⟩
      simpa [InMemoryAuditStore.call, h] using hc
  | importLog bytes =>
    obtain ⟨err, h⟩ | ⟨records, _, hc, h⟩ := importLog_cases c s bytes
    · exact Or.inl ⟨err, by simp [InMemoryAuditStore.call, h]⟩
    · exact Or.inr ⟨by simp [InMemoryAuditStore.call, h],
        fun _ => by simpa [InMemoryAuditStore.call, h] using hc⟩

theorem run_chained (calls : List Call) (h : Chained (Continues c) s.records) :
    Chained (Continues c) (s.run c calls).records := by
  induction calls generalizing s with
  | nil => exact h
  | cons call calls ih =>
    show Chained (Continues c) ((s.call c call).2.run c calls).records
    apply ih
    obtain ⟨err, e⟩ | ⟨_, hc⟩ := call_cases c s call
    · rw [e]; exact h
    · exact hc h

/-- **The incremental check.**  Appending envelopes to the empty store succeeds exactly when they are
the envelopes of a chain, and the store then holds that chain. -/
theorem appendAll_ok (es : List EventEnvelope) (s : InMemoryAuditStore) :
    empty.appendAll c es = .ok s ↔
      Chained (Continues c) s.records ∧ s.records.map envelope = es := by
  induction es using List.reverseRecOn generalizing s with
  | nil =>
    constructor
    · intro h
      obtain rfl := Except.ok.inj h
      exact ⟨chained_nil, rfl⟩
    · rintro ⟨_, h⟩
      obtain ⟨records⟩ := s
      obtain rfl := List.map_eq_nil_iff.mp h
      rfl
  | append_singleton es e ih =>
    have hfold : empty.appendAll c (es ++ [e]) = empty.appendAll c es >>= fun t =>
        match t.append c e with
        | (.ok _, t') => .ok t'
        | (.error err, _) => .error err := by
      simp only [appendAll, List.foldlM_append, List.foldlM_cons, List.foldlM_nil, bind_pure]
    rw [hfold]
    constructor
    · intro h
      obtain ⟨t, ht, hs⟩ := bind_ok h
      obtain ⟨hc, hm⟩ := (ih t).mp ht
      obtain ⟨err, he⟩ | ⟨r, hr, hk, he⟩ := append_cases c t e
      · simp [he] at hs
      · rw [he] at hs
        obtain rfl := Except.ok.inj hs
        exact ⟨chained_concat.mpr ⟨hc, hk⟩, by simp [hm, hr]⟩
    · rintro ⟨hc, hm⟩
      obtain ⟨records⟩ := s
      obtain ⟨rs, rest, rfl, hrs, hrest⟩ := List.map_eq_append_iff.mp hm
      obtain ⟨r, rfl, rfl⟩ := List.map_eq_singleton_iff.mp hrest
      obtain ⟨hc', hk⟩ := chained_concat.mp hc
      rw [(ih ⟨rs⟩).mpr ⟨hc', hrs⟩]
      have ha := append_of_continues hk
      simp [bind, Except.bind, ha]

end InMemoryAuditStore

open InMemoryAuditStore

/-- **Two checks, one verdict.**  A list passes `validate_hash_chain` exactly when appending its
envelopes to an empty store succeeds and gives back the list; so every store reached by appends and
imports holds a valid chain, and a rejected call changes nothing. -/
theorem validate_iff_appended (c : Codec) :
    (∀ records, validateHashChain c records = .ok () ↔
      empty.appendAll c (records.map AuditRecord.envelope) = .ok ⟨records⟩) ∧
    (∀ calls, validateHashChain c (empty.run c calls).records = .ok ()) ∧
    (∀ calls call err, ((empty.run c calls).call c call).1 = some err →
      ((empty.run c calls).call c call).2 = empty.run c calls) := by
  refine ⟨fun records => ?_, fun calls => ?_, fun calls call err h => ?_⟩
  · rw [validateHashChain_ok, appendAll_ok]
    exact ⟨fun h => ⟨h, rfl⟩, fun h => h.1⟩
  · exact (validateHashChain_ok c _).mpr (run_chained c empty calls chained_nil)
  · obtain ⟨err', e⟩ | ⟨hn, _⟩ := call_cases c (empty.run c calls) call
    · rw [e]
    · rw [hn] at h
      exact absurd h (by simp)

/-- **The head commits to the log.**  Where distinct envelopes have distinct hashes, two accepted
logs with the same last hash are the same log, so that any change of an accepted log that is
accepted again shows in the last hash. -/
theorem head_commits_to_log (c : Codec)
    (hinj : ∀ a b h, hashEnvelope c a = .ok h → hashEnvelope c b = .ok h → a = b)
    (l l' : List AuditRecord) (hl : validateHashChain c l = .ok ())
    (hl' : validateHashChain c l' = .ok ()) :
    (l.getLast?.map AuditRecord.hash = l'.getLast?.map AuditRecord.hash → l = l') ∧
      (l ≠ l' → l.getLast?.map AuditRecord.hash ≠ l'.getLast?.map AuditRecord.hash) := by
  have same : l.getLast?.map hash = l'.getLast?.map hash → l = l' := by
    apply Chained.eq_of_last _ _ ((validateHashChain_ok c l).mp hl)
      ((validateHashChain_ok c l').mp hl')
    · intro p q x y hx hy hkey
      have henv : x.envelope = y.envelope :=
        hinj _ _ _ hx.hashed (by rw [hkey]; exact hy.hashed)
      cases x
      cases y
      simp only at henv hkey
      rw [henv, hkey]
    · intro p q x hx hy
      exact hx.link.symm.trans hy.link
  exact ⟨same, fun hne h => hne (same h)⟩

/-! ## a sample log -/

def sampleEnvelope (n : Nat) (payload : Value) (prev : Option HashDigest) : EventEnvelope :=
  { schemaVersion := 1, monotonicSeq := n, wallClockTs := "t", correlationId := "op",
    parentOpId := none, category := .policyDecision, payload, prevHash := prev }

def samplePayload (value : Value) : Value := .object [("token", value)]

def sampleCodec : Codec where
  canonicalEnvelope
    | ⟨1, 1, "t", "op", none, .policyDecision, .null, none⟩ => .ok [1]
    | ⟨1, 2, "t", "op", none, .policyDecision, .null, some "h1"⟩ => .ok [2]
    | ⟨1, 3, "t", "op", none, .policyDecision, .null, some "h2"⟩ => .ok [3]
    | ⟨1, 2, "t", "op", none, .policyDecision, .object [("token", .string "x")], some "h1"⟩ => .ok [4]
    | ⟨1, 2, "t", "op", none, .policyDecision,
        .object [("token", .object [("redacted", .bool true)])], some "h1"⟩ => .ok [5]
    | _ => .error "unknown envelope"
  canonicalRecord
    | ⟨⟨1, 1, "t", "op", none, .policyDecision, .null, none⟩, "h1"⟩ => .ok [1]
    | ⟨⟨1, 2, "t", "op", none, .policyDecision, .null, some "h1"⟩, "h2"⟩ => .ok [2]
    | ⟨⟨1, 2, "t", "op", none, .policyDecision,
        .object [("token", .object [("redacted", .bool true)])], some "h1"⟩, "h5"⟩ => .ok [5]
    | _ => .error "unknown record"
  parseEnvelope
    | [1] => .ok (sampleEnvelope 1 .null none)
    | [2] => .ok (sampleEnvelope 2 .null (some "h1"))
    | [3] => .ok (sampleEnvelope 3 .null (some "h2"))
    | [4] => .ok (sampleEnvelope 2 (samplePayload (.string "x")) (some "h1"))
    | [5] => .ok (sampleEnvelope 2 (samplePayload redactionMarker) (some "h1"))
    | _ => .error "unknown line"
  parseRecord
    | [1] => .ok ⟨sampleEnvelope 1 .null none, "h1"⟩
    | [2] => .ok ⟨sampleEnvelope 2 .null (some "h1"), "h2"⟩
    | [5] => .ok ⟨sampleEnvelope 2 (samplePayload redactionMarker) (some "h1"), "h5"⟩
    | _ => .error "unknown line"
  sha256Hex
    | [1] => "h1"
    | [2] => "h2"
    | [3] => "h3"
    | [4] => "h4"
    | _ => "h5"

theorem sampleCodec_canonical {a : EventEnvelope} {bytes : Bytes}
    (h : sampleCodec.canonicalEnvelope a = .ok bytes) :
    (a, bytes) ∈ [(sampleEnvelope 1 .null none, [1]), (sampleEnvelope 2 .null (some "h1"), [2]),
      (sampleEnvelope 3 .null (some "h2"), [3]),
      (sampleEnvelope 2 (samplePayload (.string "x")) (some "h1"), [4]),
      (sampleEnvelope 2 (samplePayload redactionMarker) (some "h1"), [5])] := by
  simp only [sampleCodec] at h
  split at h
  case h_6 => exact absurd h (by simp)
  all_goals
    obtain rfl := Except.ok.inj h
    simp [sampleEnvelope, samplePayload, redactionMarker]

theorem sampleCodec_injective (a b : EventEnvelope) (h : HashDigest)
    (ha : hashEnvelope sampleCodec a = .ok h) (hb : hashEnvelope sampleCodec b = .ok h) : a = b := by
  have hbytes : ∀ e, hashEnvelope sampleCodec e = .ok h →
      ∃ bytes, sampleCodec.canonicalEnvelope e = .ok bytes ∧ sampleCodec.sha256Hex bytes = h := by
    intro e he
    unfold hashEnvelope at he
    cases hc : sampleCodec.canonicalEnvelope e with
    | error => simp [hc] at he
    | ok bytes =>
      rw [hc] at he
      exact ⟨bytes, rfl, Except.ok.inj he⟩
  obtain ⟨bytes, hca, rfl⟩ := hbytes a ha
  obtain ⟨bytes', hcb, hh⟩ := hbytes b hb
  have hma := sampleCodec_canonical hca
  have hmb := sampleCodec_canonical hcb
  simp only [List.mem_cons, List.not_mem_nil, or_false] at hma hmb
  rcases hma with ⟨rfl, rfl⟩ | ⟨rfl, rfl⟩ | ⟨rfl, rfl⟩ | ⟨rfl, rfl⟩ | ⟨rfl, rfl⟩ <;>
    rcases hmb with ⟨rfl, rfl⟩ | ⟨rfl, rfl⟩ | ⟨rfl, rfl⟩ | ⟨rfl, rfl⟩ | ⟨rfl, rfl⟩ <;>
    first | rfl | exact absurd hh (by decide)

def sampleLog : List AuditRecord :=
  [⟨sampleEnvelope 1 .null none, "h1"⟩, ⟨sampleEnvelope 2 .null (some "h1"), "h2"⟩]

theorem sampleLog_valid : validateHashChain sampleCodec sampleLog = .ok () := by rfl

/-- dropping the last record of the sample log shows in the head -/
theorem head_commits_to_log_sample :
    sampleLog.getLast?.map AuditRecord.hash ≠ (sampleLog.take 1).getLast?.map AuditRecord.hash :=
  (head_commits_to_log sampleCodec sampleCodec_injective sampleLog (sampleLog.take 1)
    sampleLog_valid (by rfl)).2 (by simp [sampleLog])

end Audit

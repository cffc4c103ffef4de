import Orchestraitor.Audit.Store

/-!
# Export and import of the audit log

An export redacts every record, so every hash changes and the chain is rebuilt from the first
record on.  Reading the export back needs the serializer to be faithful; everything else follows.
-/

namespace Audit
open Base List

/-! ## lines -/

def unlines (lines : List Bytes) : Bytes := lines.flatMap (· ++ [newline])

theorem unlines_cons (line : Bytes) (lines : List Bytes) :
    unlines (line :: lines) = line ++ newline :: unlines lines := by
  simp [unlines]

theorem splitOn_unlines {lines : List Bytes} (h : ∀ line ∈ lines, newline ∉ line) :
    (unlines lines).splitOn newline = lines ++ [[]] := by
  induction lines with
  | nil => rfl
  | cons line _ ih =>
    rw [unlines_cons, splitOn_append_cons_self_of_not_mem (h line (by simp)),
      ih (fun l hl => h l (mem_cons_of_mem _ hl))]
    rfl

/-! ## the serializer -/

/-- what the JSON crates promise of records with canonical numbers and keys: a canonical line is not empty,
holds no newline and parses back to its record -/
structure Codec.RoundTrips (c : Codec) : Prop where
  parses : ∀ r line, c.canonicalRecord r = .ok line → c.parseRecord line = .ok r
  oneLine : ∀ r line, c.canonicalRecord r = .ok line → newline ∉ line ∧ line ≠ []

/-- canonicalization succeeds on every document -/
structure Codec.Total (c : Codec) : Prop where
  envelopes : ∀ e, ∃ bytes, c.canonicalEnvelope e = .ok bytes
  records : ∀ r, ∃ line, c.canonicalRecord r = .ok line

/-! ## the exported log -/

/-- the records of an export that starts after the hash `prev`, with their lines -/
inductive Reissues (c : Codec) (mode : PrivacyExportMode) :
    Option HashDigest → List AuditRecord → List AuditRecord → List Bytes → Prop where
  | nil (prev : Option HashDigest) : Reissues c mode prev [] [] []
  | cons {prev : Option HashDigest} {r x : AuditRecord} {rs xs : List AuditRecord} {line : Bytes}
      {lines : List Bytes} (envelope : x.envelope = { redactEvent r mode with prevHash := prev })
      (hashed : hashEnvelope c x.envelope = .ok x.hash)
      (written : c.canonicalRecord x = .ok line)
      (rest : Reissues c mode (some x.hash) rs xs lines) :
      Reissues c mode prev (r :: rs) (x :: xs) (line :: lines)

theorem exportRecord_ok {c : Codec} {mode : PrivacyExportMode} {st st' : Bytes × Option HashDigest}
    {r : AuditRecord} : exportRecord c mode st r = .ok st' ↔
      ∃ x line, x.envelope = { redactEvent r mode with prevHash := st.2 } ∧
        hashEnvelope c x.envelope = .ok x.hash ∧ c.canonicalRecord x = .ok line ∧
        st' = (st.1 ++ line ++ [newline], some x.hash) := by
  constructor
  · intro h
    obtain ⟨x, hx, h⟩ := bind_ok h
    obtain ⟨he, hh⟩ := tryFromEnvelope_ok.mp hx
    cases hw : c.canonicalRecord x with
    | error => simp [hw] at h
    | ok line =>
      simp only [hw] at h
      exact ⟨x, line, he, he ▸ hh, hw, (Except.ok.inj h).symm⟩
  · rintro ⟨x, line, he, hh, hw, rfl⟩
    have hx : AuditRecord.tryFromEnvelope c { redactEvent r mode with prevHash := st.2 } = .ok x :=
      tryFromEnvelope_ok.mpr ⟨he, he ▸ hh⟩
    rw [exportRecord, hx]
    simp [bind, Except.bind, hw]

theorem foldlM_exportRecord_ok (c : Codec) (mode : PrivacyExportMode) (rs : List AuditRecord)
    (out out' : Bytes) (prev : Option HashDigest) :
    (∃ last, rs.foldlM (exportRecord c mode) (out, prev) = .ok (out', last)) ↔
      ∃ xs lines, Reissues c mode prev rs xs lines ∧ out' = out ++ unlines lines := by
  induction rs generalizing out prev with
  | nil =>
    constructor
    · rintro ⟨last, h⟩
      obtain ⟨rfl, rfl⟩ := Prod.mk.inj (Except.ok.inj h)
      exact ⟨[], [], .nil prev, by simp [unlines]⟩
    · rintro ⟨xs, lines, h, rfl⟩
      cases h
      exact ⟨prev, by simp [unlines, pure, Except.pure]⟩
  | cons _ _ ih =>
    simp only [foldlM_cons]
    constructor
    · rintro ⟨last, h⟩
      obtain ⟨st, hst, h⟩ := bind_ok h
      obtain ⟨x, line, he, hh, hw, rfl⟩ := exportRecord_ok.mp hst
      obtain ⟨xs, lines, hrest, rfl⟩ := (ih _ _).mp ⟨last, h⟩
      exact ⟨x :: xs, line :: lines, .cons he hh hw hrest, by simp [unlines_cons]⟩
    · rintro ⟨xs, lines, h, rfl⟩
      cases h with
      | @cons _ _ x _ xs line lines he hh hw hrest =>
        obtain ⟨last, hl⟩ := (ih (out ++ line ++ [newline]) (some x.hash)).mpr
          ⟨xs, lines, hrest, by simp [unlines_cons]⟩
        refine ⟨last, ?_⟩
        rw [exportRecord_ok.mpr ⟨x, line, he, hh, hw, rfl⟩]
        exact hl

theorem exportRecords_ok {c : Codec} {mode : PrivacyExportMode} {rs : List AuditRecord}
    {out : Bytes} : exportRecords c rs mode = .ok out ↔
      ∃ xs lines, Reissues c mode none rs xs lines ∧ out = unlines lines := by
  have hf := foldlM_exportRecord_ok c mode rs [] out none
  simp only [nil_append] at hf
  rw [← hf]
  constructor
  · intro h
    obtain ⟨⟨out', last⟩, hl, h⟩ := bind_ok h
    obtain rfl := Except.ok.inj h
    exact ⟨last, hl⟩
  · rintro ⟨last, hl⟩
    rw [exportRecords, hl]
    rfl

namespace Reissues
variable {c : Codec} {mode : PrivacyExportMode} {prev : Option HashDigest}
  {rs xs : List AuditRecord} {lines : List Bytes}

theorem map_eq {β : Type} (h : Reissues c mode prev rs xs lines) (f : EventEnvelope → β)
    (hf : ∀ r link, f { redactEvent r mode with prevHash := link } = f r.envelope) :
    xs.map (fun x => f x.envelope) = rs.map (fun r => f r.envelope) := by
  induction h with
  | nil => rfl
  | cons he _ _ _ ih => rw [map_cons, map_cons, ih, he, hf]

theorem mem (h : Reissues c mode prev rs xs lines) {x : AuditRecord} (hx : x ∈ xs) :
    ∃ r link, x.envelope = { redactEvent r mode with prevHash := link } := by
  induction h with
  | nil => exact absurd hx (by simp)
  | @cons prev r y rs xs line lines he _ _ _ ih =>
    rcases mem_cons.mp hx with rfl | hx
    · exact ⟨r, prev, he⟩
    · exact ih hx

theorem validates (h : Reissues c mode prev rs xs lines) {n : Nat} {p : Option HashDigest}
    {st : Nat × Option HashDigest} (hv : rs.foldlM (validateRecord c) (n, p) = .ok st) :
    ∃ st', xs.foldlM (validateRecord c) (n, prev) = .ok st' := by
  induction h generalizing n p with
  | nil prev => exact ⟨(n, prev), rfl⟩
  | @cons prev r x rs xs line lines he hh _ _ ih =>
    obtain ⟨⟨m, q⟩, hr, hv⟩ := bind_ok hv
    have hx : validateRecord c (n, prev) x = .ok (m, some x.hash) := by
      unfold validateRecord at hr ⊢
      dsimp only at hr ⊢
      split_ifs at hr with hs hp
      obtain ⟨computed, _, hr⟩ := bind_ok hr
      split_ifs at hr
      obtain ⟨rfl, _⟩ := Prod.mk.inj (Except.ok.inj hr)
      have hseq : x.envelope.monotonicSeq = r.envelope.monotonicSeq := by rw [he]; rfl
      have hlink : x.envelope.prevHash = prev := by rw [he]
      rw [hseq, if_neg hs, hlink, hh]
      simp [bind, Except.bind]
    obtain ⟨st', hst⟩ := ih hv
    refine ⟨st', ?_⟩
    rw [foldlM_cons, hx]
    exact hst

theorem again (h : Reissues c mode prev rs xs lines) : Reissues c mode prev xs xs lines := by
  induction h with
  | nil prev => exact .nil prev
  | @cons prev r x rs xs line lines he hh hw _ ih =>
    have hlink : x.envelope.prevHash = prev := by rw [he]
    refine .cons ?_ hh hw ih
    rw [redactEvent_exported he, ← hlink]

theorem parses (h : Reissues c mode prev rs xs lines) (hc : c.RoundTrips) :
    parseLines c (unlines lines) = .ok xs := by
  have hlines : ∀ line ∈ lines, newline ∉ line ∧ line ≠ [] := by
    intro _ hl
    induction h with
    | nil => exact absurd hl (by simp)
    | cons _ _ hw _ ih =>
      rcases mem_cons.mp hl with rfl | hl
      · exact hc.oneLine _ _ hw
      · exact ih hl
  have hfilter : (lines ++ [[]]).filter (fun line => !line.isEmpty) = lines := by
    rw [filter_append, filter_eq_self.mpr (fun line hl => by simp [(hlines line hl).2])]
    simp
  rw [parseLines, splitOn_unlines (fun line hl => (hlines line hl).1), hfilter]
  clear hlines hfilter
  induction h with
  | nil => rfl
  | cons _ _ hw _ ih =>
    rw [mapM_cons, ih, hc.parses _ _ hw]
    rfl

theorem exists_of_total (hc : c.Total) (rs : List AuditRecord) (prev : Option HashDigest) :
    ∃ xs lines, Reissues c mode prev rs xs lines := by
  induction rs generalizing prev with
  | nil => exact ⟨[], [], .nil prev⟩
  | cons r _ ih =>
    obtain ⟨bytes, hb⟩ := hc.envelopes { redactEvent r mode with prevHash := prev }
    obtain ⟨line, hl⟩ := hc.records ⟨{ redactEvent r mode with prevHash := prev }, c.sha256Hex bytes⟩
    obtain ⟨xs, lines, h⟩ := ih (some (c.sha256Hex bytes))
    exact ⟨_ :: xs, line :: lines, .cons rfl (by rw [hashEnvelope, hb]) hl h⟩

end Reissues

open InMemoryAuditStore

/-- **Export, import, export.**  With a faithful serializer, for every valid store and mode: an
export succeeds where canonicalization does, and the empty store accepts it; the imported records
are as many, with the same sequence numbers, categories and correlation ids; under a redacted name
only the marker is left, at any depth, and a secret-use payload is the marker; redaction is
idempotent, and the imported store exports to the same bytes. -/
theorem export_import_export (c : Codec) (hc : c.RoundTrips) (s : InMemoryAuditStore)
    (hs : validateHashChain c s.records = .ok ()) (mode : PrivacyExportMode) :
    (c.Total → ∃ bytes, s.exportLog c mode = .ok bytes) ∧
    (∀ r hash, redactEvent ⟨redactEvent r mode, hash⟩ mode = redactEvent r mode) ∧
    ∀ bytes, s.exportLog c mode = .ok bytes →
      ∃ imported : List AuditRecord,
        empty.importLog c bytes = (.ok imported, ⟨imported⟩) ∧
        imported.length = s.records.length ∧
        imported.map (·.envelope.monotonicSeq) = s.records.map (·.envelope.monotonicSeq) ∧
        imported.map (·.envelope.category) = s.records.map (·.envelope.category) ∧
        imported.map (·.envelope.correlationId) = s.records.map (·.envelope.correlationId) ∧
        (∀ r ∈ imported, ∀ k v, Stored k v r.envelope.payload → isRedactedField k = true →
          v = redactionMarker) ∧
        (∀ r ∈ imported, r.envelope.category = .secretUse →
          r.envelope.payload = redactionMarker) ∧
        InMemoryAuditStore.exportLog c ⟨imported⟩ mode = .ok bytes := by
  refine ⟨fun ht => ?_, fun r hash => redactEvent_exported rfl, fun bytes hb => ?_⟩
  · obtain ⟨xs, lines, h⟩ := Reissues.exists_of_total ht s.records none
    exact ⟨unlines lines, exportRecords_ok.mpr ⟨xs, lines, h, rfl⟩⟩
  · obtain ⟨xs, lines, h, rfl⟩ := exportRecords_ok.mp hb
    obtain ⟨st, hst, _⟩ := bind_ok hs
    obtain ⟨st', hst'⟩ := h.validates hst
    have hv : validateHashChain c xs = .ok () := by
      rw [validateHashChain, hst']
      rfl
    have hmap := fun (β : Type) (f : EventEnvelope → β) hf => h.map_eq f hf
    refine ⟨xs, ?_, ?_, hmap _ (·.monotonicSeq) (fun _ _ => rfl),
      hmap _ (·.category) (fun _ _ => rfl), hmap _ (·.correlationId) (fun _ _ => rfl),
      ?_, ?_, exportRecords_ok.mpr ⟨xs, lines, h.again, rfl⟩⟩
    · simp only [importLog, h.parses hc, hv]
    · have hlen := congrArg length (hmap _ (·.category) (fun _ _ => rfl))
      simpa using hlen
    · intro x hx k v hk hred
      obtain ⟨r, link, he⟩ := h.mem hx
      rw [he] at hk
      exact clean_redactPayload mode r.envelope.category r.envelope.payload k v hk hred
    · intro x hx hcat
      obtain ⟨r, link, he⟩ := h.mem hx
      rw [he] at hcat ⊢
      show redactPayload mode r.envelope.category r.envelope.payload = redactionMarker
      rw [show r.envelope.category = .secretUse from hcat, redactPayload_secretUse]

/-! ## the sample log, exported -/

theorem sampleCodec_roundTrips : sampleCodec.RoundTrips := by
  have hcases : ∀ r line, sampleCodec.canonicalRecord r = .ok line →
      (r, line) ∈ [(⟨sampleEnvelope 1 .null none, "h1"⟩, [1]),
        (⟨sampleEnvelope 2 .null (some "h1"), "h2"⟩, [2]),
        (⟨sampleEnvelope 2 (samplePayload redactionMarker) (some "h1"), "h5"⟩, [5])] := by
    intro _ _ h
    simp only [sampleCodec] at h
    split at h
    case h_4 => exact absurd h (by simp)
    all_goals
      obtain rfl := Except.ok.inj h
      simp [sampleEnvelope, samplePayload, redactionMarker]
  constructor
  · intro r line h
    have hr := hcases r line h
    simp only [mem_cons, not_mem_nil, or_false] at hr
    rcases hr with ⟨rfl, rfl⟩ | ⟨rfl, rfl⟩ | ⟨rfl, rfl⟩ <;> rfl
  · intro r line h
    have hr := hcases r line h
    simp only [mem_cons, not_mem_nil, or_false] at hr
    rcases hr with ⟨_, rfl⟩ | ⟨_, rfl⟩ | ⟨_, rfl⟩ <;> decide

def sampleSecret : InMemoryAuditStore :=
  ⟨[⟨sampleEnvelope 1 .null none, "h1"⟩, ⟨sampleEnvelope 2 (samplePayload (.string "x")) (some "h1"), "h4"⟩]⟩

/-- the token of the second record is gone from the export, which is read back and exported again unchanged -/
theorem export_import_export_sample :
    sampleSecret.exportLog sampleCodec .redacted = .ok [1, newline, 5, newline] ∧
    ∃ imported : List AuditRecord,
      InMemoryAuditStore.empty.importLog sampleCodec [1, newline, 5, newline] = (.ok imported, ⟨imported⟩) ∧
      InMemoryAuditStore.exportLog sampleCodec ⟨imported⟩ .redacted = .ok [1, newline, 5, newline] := by
  have hexp : sampleSecret.exportLog sampleCodec .redacted = .ok [1, newline, 5, newline] := by rfl
  obtain ⟨imported, h1, _, _, _, _, _, _, h2⟩ :=
    (export_import_export sampleCodec sampleCodec_roundTrips sampleSecret (by rfl) .redacted).2.2
      [1, newline, 5, newline] hexp
  exact ⟨hexp, imported, h1, h2⟩

end Audit

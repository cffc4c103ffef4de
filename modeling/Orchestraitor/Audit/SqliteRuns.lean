import Orchestraitor.Audit.Sqlite

/-!
# Interleaved appends and imports on one database

* `Holds c table records`     the table holds the chain `records`, row for row;
* `Current db`                every cache that would be trusted is the head on disk;
* `Undisturbed c db steps`    no commit falls between another import's commit and its version read.
-/

namespace Audit
open Base List Function

/-- what the JSON crates promise of stored envelopes, whose numbers and keys are canonical: `1.0` is read back
as the `1` that was written -/
def Codec.EnvelopesRoundTrip (c : Codec) : Prop :=
  ∀ e bytes, c.canonicalEnvelope e = .ok bytes → c.parseEnvelope bytes = .ok e

/-! ## rows -/

variable {c : Codec} {r : AuditRecord} {table : List Row} {records : List AuditRecord} {v : Int}

theorem decodeEnvelope_ok {bytes : Bytes} {hash : String} : decodeEnvelope c bytes hash = .ok r ↔
      c.parseEnvelope bytes = .ok r.envelope ∧ hashEnvelope c r.envelope = .ok r.hash ∧
        r.hash = hash := by
  unfold decodeEnvelope
  cases hp : c.parseEnvelope bytes with
  | error => simp
  | ok =>
    constructor
    · intro h
      obtain ⟨computed, hh, h⟩ := bind_ok h
      split_ifs at h with hne
      obtain rfl := Except.ok.inj h
      exact ⟨rfl, hh, not_not.mp hne⟩
    · rintro ⟨he, hh, rfl⟩
      obtain rfl := Except.ok.inj he
      simp [hh, bind, Except.bind]

/-- what a row that loads says about its record -/
structure RowOf (c : Codec) (row : Row) (r : AuditRecord) : Prop where
  loads : loadRow c row = .ok r
  sequence : row.monotonicSeq = r.envelope.monotonicSeq
  bounded : r.envelope.monotonicSeq ≤ i64Max
  hash : row.hash = r.hash
  hashed : hashEnvelope c r.envelope = .ok r.hash

theorem rowOf_of_load {row : Row} (h : loadRow c row = .ok r) : RowOf c row r := by
  obtain ⟨r', hd, h'⟩ := bind_ok h
  dsimp only at h'
  split_ifs at h' with hs hm
  obtain rfl := Except.ok.inj h'
  obtain ⟨_, hh, he⟩ := decodeEnvelope_ok.mp hd
  exact ⟨h, hs.2.symm, hs.1, he.symm, hh⟩

theorem insertRow_ok (hc : c.EnvelopesRoundTrip) {table' : List Row}
    (hr : hashEnvelope c r.envelope = .ok r.hash) (h : insertRow c table r = .ok table') :
    ∃ row, table' = table ++ [row] ∧ RowOf c row r ∧
      ∀ q ∈ table, q.monotonicSeq ≠ r.envelope.monotonicSeq := by
  unfold insertRow at h
  cases hb : c.canonicalEnvelope r.envelope with
  | error =>
    simp only [hb] at h
    split_ifs at h
  | ok bytes =>
    simp only [hb] at h
    split_ifs at h with hi hseq hhash
    obtain rfl := Except.ok.inj h
    refine ⟨_, rfl, rowOf_of_load ?_, ?_⟩
    · have hd : decodeEnvelope c bytes r.hash = .ok r :=
        decodeEnvelope_ok.mpr ⟨hc _ _ hb, hr, rfl⟩
      have hle : r.envelope.monotonicSeq ≤ i64Max := by omega
      simp [loadRow, hd, bind, Except.bind, hle]
    · intro q hq he
      exact hseq (any_eq_true.mpr ⟨q, hq, by simpa using he⟩)

theorem insertRow_of_new (hr : hashEnvelope c r.envelope = .ok r.hash)
    (hi : r.envelope.monotonicSeq ≤ i64Max)
    (hseq : ∀ q ∈ table, q.monotonicSeq ≠ r.envelope.monotonicSeq)
    (hhash : ∀ q ∈ table, q.hash ≠ r.hash) : ∃ table', insertRow c table r = .ok table' := by
  have hb : ∃ bytes, c.canonicalEnvelope r.envelope = .ok bytes := by
    unfold hashEnvelope at hr
    cases hb : c.canonicalEnvelope r.envelope with
    | error => simp [hb] at hr
    | ok bytes => exact ⟨bytes, rfl⟩
  obtain ⟨bytes, hb⟩ := hb
  have h1 : ¬ r.envelope.monotonicSeq > i64Max := by omega
  have h2 : table.any (fun row => row.monotonicSeq = r.envelope.monotonicSeq) = false := by
    simpa using hseq
  have h3 : table.any (fun row => row.hash = r.hash) = false := by simpa using hhash
  exact ⟨_, by simp only [insertRow, if_neg h1, hb, h2, h3]; rfl⟩

/-! ## tables that hold a chain -/

/-- the rows of the table are the records of a chain, in order -/
structure Holds (c : Codec) (table : List Row) (records : List AuditRecord) : Prop where
  rows : List.Forall₂ (RowOf c) table records
  chained : Chained (Continues c) records

namespace Holds
variable {c : Codec} {table : List Row} {records : List AuditRecord}

theorem nil : Holds c [] [] := ⟨.nil, chained_nil⟩

theorem concat (h : Holds c table records) {row : Row} {r : AuditRecord} (hrow : RowOf c row r)
    (hr : Continues c records.getLast? r) : Holds c (table ++ [row]) (records ++ [r]) :=
  ⟨rel_append h.rows (.cons hrow .nil), chained_concat.mpr ⟨h.chained, hr⟩⟩

end Holds

theorem sequences_of_chained (h : Chained (Continues c) records)
    (hb : ∀ r ∈ records, r.envelope.monotonicSeq ≤ i64Max) :
    records.map (·.envelope.monotonicSeq) = range' 1 records.length := by
  induction records using reverseRecOn with
  | nil => rfl
  | append_singleton l x ih =>
    obtain ⟨hl, hx⟩ := chained_concat.mp h
    have ihl := ih hl (fun r hr => hb r (mem_append_left _ hr))
    have hseq : x.envelope.monotonicSeq = l.length + 1 := by
      rw [hx.sequence]
      cases l using reverseRecOn with
      | nil => rfl
      | append_singleton l' y =>
        have hy : y.envelope.monotonicSeq = l'.length + 1 := by
          have := congrArg getLast? ihl
          rw [length_append, length_singleton, range'_concat] at this
          simp at this
          omega
        have hle := hb y (by simp)
        have hmax : i64Max + 1 ≤ u64Max := by decide
        rw [getLast?_concat, nextSequence, satAdd64]
        simp only [length_append, length_singleton]
        omega
    rw [map_append, ihl, length_append, length_singleton, range'_concat]
    simp [hseq, Nat.add_comm]

namespace Holds
variable {c : Codec} {table : List Row} {records : List AuditRecord}

theorem exists_row (h : Holds c table records) {r : AuditRecord} (hr : r ∈ records) :
    ∃ row ∈ table, RowOf c row r :=
  exists_of_forall₂ h.rows hr

theorem exists_record (h : Holds c table records) {row : Row} (hrow : row ∈ table) :
    ∃ r ∈ records, RowOf c row r :=
  exists_of_forall₂ (List.Forall₂.flip (R := flip (RowOf c)) h.rows) hrow

theorem sequences (h : Holds c table records) :
    records.map (·.envelope.monotonicSeq) = range' 1 records.length := by
  apply sequences_of_chained h.chained
  intro r hr
  obtain ⟨row, _, hrow⟩ := h.exists_row hr
  exact hrow.bounded

theorem table_sequences (h : Holds c table records) :
    table.map Row.monotonicSeq = range' 1 records.length := by
  rw [← h.sequences]
  exact map_eq_of_forall₂ h.rows fun _ _ hrow => hrow.sequence

theorem load (h : Holds c table records) : loadVerifiedRecords c table = .ok records := by
  have hsorted : sortByKey Row.monotonicSeq table = table := by
    apply List.Pairwise.insertionSort_eq
    have hp : (table.map Row.monotonicSeq).Pairwise (· ≤ ·) := by
      rw [h.table_sequences]
      exact pairwise_le_range'
    exact pairwise_map.mp hp
  have hmap : table.mapM (loadRow c) = .ok records := mapM_of_forall₂ h.rows fun _ _ hrow => hrow.loads
  rw [loadVerifiedRecords, hsorted, hmap]
  show (validateHashChain c records >>= fun _ => .ok records) = _
  rw [(validateHashChain_ok c records).mpr h.chained]
  rfl

theorem headRecord (h : Holds c table records) :
    Audit.headRecord c table = .ok records.getLast? := by
  rw [Audit.headRecord, h.load]
  rfl

theorem last_of_free (h : Holds c table records) {r : AuditRecord} (hr : r ∈ records)
    (hfree : ∀ q ∈ table, q.monotonicSeq ≠ r.envelope.monotonicSeq + 1) :
    records.getLast? = some r := by
  have hnot : r.envelope.monotonicSeq + 1 ∉ range' 1 records.length := by
    rw [← h.table_sequences]
    intro hm
    obtain ⟨q, hq, he⟩ := mem_map.mp hm
    exact hfree q hq he
  have hin : r.envelope.monotonicSeq ∈ range' 1 records.length := by
    rw [← h.sequences]
    exact mem_map_of_mem hr
  have hlen : r.envelope.monotonicSeq = records.length := by
    rw [mem_range'_1] at hnot hin
    omega
  cases records using reverseRecOn with
  | nil => exact absurd hr (by simp)
  | append_singleton l =>
    rw [getLast?_concat]
    rcases mem_append.mp hr with hl | hx
    · -- an earlier record has a smaller number
      have hs := h.sequences
      rw [length_append, length_singleton, range'_concat, map_append] at hs
      have hl' : r.envelope.monotonicSeq ∈ range' 1 l.length := by
        rw [← (append_inj' hs rfl).1]
        exact mem_map_of_mem hl
      rw [mem_range'_1] at hl'
      rw [length_append, length_singleton] at hlen
      omega
    · rw [mem_singleton.mp hx]

end Holds

/-! ## transactions -/

theorem validateAgainstHead_ok (head : Option AuditRecord) (e : EventEnvelope) :
    validateAgainstHead head e = .ok () ↔
      e.monotonicSeq = nextSequence head ∧ e.prevHash = head.map AuditRecord.hash := by
  cases head with
  | some r =>
    show validateNextEnvelope [r] e = .ok () ↔ _
    rw [validateNextEnvelope_ok]
    rfl
  | none =>
    show (if e.monotonicSeq ≠ 1 ∨ e.prevHash.isSome then _ else _) = Except.ok () ↔ _
    by_cases h1 : e.monotonicSeq = 1
    · cases h2 : e.prevHash <;> simp [nextSequence]
    · simp [nextSequence]

theorem trustedHead_cases {conn : Connection} {head : Option AuditRecord}
    (h : Holds c table records) (ht : trustedHead c conn table v = .ok head) :
    head = records.getLast? ∨ ∃ cached, head = some cached ∧ ∃ row ∈ table,
        row.monotonicSeq = cached.envelope.monotonicSeq ∧ row.hash = cached.hash := by
  have hdisk : Audit.headRecord c table = .ok head → head = records.getLast? := by
    intro hh
    exact (Except.ok.inj (h.headRecord.symm.trans hh)).symm
  unfold trustedHead at ht
  split at ht
  · exact Or.inl (hdisk ht)
  · rename_i cached _
    split_ifs at ht with hv hi
    · exact Or.inl (hdisk ht)
    · split at ht
      · rename_i row hf
        split_ifs at ht with hh
        · have hseq := find?_some hf
          exact Or.inr ⟨cached, (Except.ok.inj ht).symm, row, mem_of_find?_eq_some hf,
            by simpa using hseq, hh⟩
        · exact Or.inl (hdisk ht)
      · exact Or.inl (hdisk ht)

/-- **An append commits a chain**, whatever the connection had cached. -/
theorem appendTransaction_holds (hc : c.EnvelopesRoundTrip) {conn : Connection} {table' : List Row}
    {e : EventEnvelope} (h : Holds c table records)
    (ha : appendTransaction c conn table v e = .ok (r, table')) :
    Holds c table' (records ++ [r]) := by
  obtain ⟨head, ht, ha⟩ := bind_ok ha
  obtain ⟨_, hval, ha⟩ := bind_ok ha
  obtain ⟨r', hr, ha⟩ := bind_ok ha
  obtain ⟨table'', hins, ha⟩ := bind_ok ha
  obtain ⟨rfl, rfl⟩ := Prod.mk.inj (Except.ok.inj ha)
  obtain ⟨rfl, hhash⟩ := tryFromEnvelope_ok.mp hr
  obtain ⟨hseq, hlink⟩ := (validateAgainstHead_ok head _).mp hval
  obtain ⟨row, rfl, hrow, hnew⟩ := insertRow_ok hc hhash hins
  apply h.concat hrow
  obtain rfl | ⟨cached, rfl, q, hq, hqs, hqh⟩ := trustedHead_cases h ht
  · exact ⟨hseq, hlink, hhash⟩
  · -- the row behind the cached head is the last one, as the next number was free
    obtain ⟨last, hmem, hlast⟩ := h.exists_record hq
    have hcs : cached.envelope.monotonicSeq = last.envelope.monotonicSeq :=
      hqs.symm.trans hlast.sequence
    have hnext : r'.envelope.monotonicSeq = last.envelope.monotonicSeq + 1 := by
      have hb := hlast.bounded
      have hmax : i64Max + 1 ≤ u64Max := by decide
      rw [hseq, nextSequence, satAdd64]
      omega
    have hget : records.getLast? = some last :=
      h.last_of_free hmem (fun q' hq' => hnext ▸ hnew q' hq')
    rw [hget]
    refine ⟨?_, ?_, hhash⟩
    · rw [hseq, nextSequence, nextSequence, hcs]
    · rw [hlink, Option.map_some, Option.map_some, ← hqh, hlast.hash]

theorem foldlM_insertRow_rows (hc : c.EnvelopesRoundTrip) {l done : List AuditRecord}
    {t t' : List Row} (hh : ∀ r ∈ l, hashEnvelope c r.envelope = .ok r.hash)
    (ht : List.Forall₂ (RowOf c) t done) (hf : l.foldlM (insertRow c) t = .ok t') :
    List.Forall₂ (RowOf c) t' (done ++ l) := by
  induction l generalizing done t with
  | nil =>
    obtain rfl := Except.ok.inj hf
    rwa [append_nil]
  | cons r l ih =>
    obtain ⟨u, hu, hf⟩ := bind_ok hf
    obtain ⟨row, rfl, hrow, _⟩ := insertRow_ok hc (hh r (by simp)) hu
    have hrest := ih (fun q hq => hh q (mem_cons_of_mem _ hq))
      (rel_append ht (.cons hrow .nil)) hf
    rwa [append_assoc] at hrest

theorem importTransaction_holds (hc : c.EnvelopesRoundTrip) {bytes : Bytes}
    (h : importTransaction c bytes = .ok (records, table)) : Holds c table records := by
  obtain ⟨imported, _, h⟩ := bind_ok h
  obtain ⟨_, hv, h⟩ := bind_ok h
  obtain ⟨table', hins, h⟩ := bind_ok h
  obtain ⟨rfl, rfl⟩ := Prod.mk.inj (Except.ok.inj h)
  have hchain := (validateHashChain_ok c imported).mp hv
  refine ⟨foldlM_insertRow_rows hc (fun r hr => ?_) .nil hins, hchain⟩
  obtain ⟨p, hp⟩ := hchain.exists_follows hr
  exact hp.hashed

/-! ## steps -/

namespace Database
variable {ι : Type} [DecidableEq ι] {c : Codec} {db : Database ι}

theorem step_cases (c : Codec) (db : Database ι) (s : Step ι) : db.step c s = db ∨
    (∃ i e r table, s = .append i e ∧ db.reading i = false ∧
      appendTransaction c (db.connections i) db.table (db.dataVersion i) e = .ok (r, table) ∧
      db.step c s = db.commit i table
        { cachedDataVersion := db.dataVersion i, verifiedHead := some r } false) ∨
    (∃ i bytes imported table, s = .importCommit i bytes ∧ db.reading i = false ∧
      importTransaction c bytes = .ok (imported, table) ∧ db.step c s = db.commit i table
        { db.connections i with verifiedHead := imported.getLast? } true) ∨
    (∃ i succeeds, s = .readVersion i succeeds ∧ db.reading i = true ∧ db.step c s = { db with
        connections := update db.connections i
          (if succeeds then { db.connections i with cachedDataVersion := db.dataVersion i }
            else db.connections i), reading := update db.reading i false }) := by
  cases s with
  | append i e =>
    cases hr : db.reading i with
    | true => exact Or.inl (by simp [step, hr])
    | false =>
      cases ha : appendTransaction c (db.connections i) db.table (db.dataVersion i) e with
      | error => exact Or.inl (by simp [step, append, ha])
      | ok p =>
        obtain ⟨r, table⟩ := p
        exact Or.inr (Or.inl ⟨i, e, r, table, rfl, hr, ha, by simp [step, hr, append, ha]⟩)
  | importCommit i bytes =>
    cases hr : db.reading i with
    | true => exact Or.inl (by simp [step, hr])
    | false =>
      cases ha : importTransaction c bytes with
      | error => exact Or.inl (by simp [step, ha])
      | ok p =>
        obtain ⟨imported, table⟩ := p
        exact Or.inr (Or.inr (Or.inl ⟨i, bytes, imported, table, rfl, hr, ha,
          by simp [step, hr, ha]⟩))
  | readVersion i succeeds =>
    cases hr : db.reading i with
    | false => exact Or.inl (by simp [step, hr])
    | true => exact Or.inr (Or.inr (Or.inr ⟨i, succeeds, rfl, hr, by simp [step, hr]⟩))

theorem dataVersion_commit (db : Database ι) (i j : ι) (table : List Row) (conn : Connection)
    (reading : Bool) : (db.commit i table conn reading).dataVersion j =
      if j = i then db.dataVersion j else db.dataVersion j + 1 := by
  by_cases h : j = i
  · subst h
    simp [commit, dataVersion]
  · have h' : ¬ i = j := fun e => h e.symm
    simp [commit, dataVersion, h, h']

end Database

/-- every cache that an append would trust is the head of the chain on disk -/
structure Current {ι : Type} [DecidableEq ι] (c : Codec) (db : Database ι)
    (records : List AuditRecord) : Prop where
  holds : Holds c db.table records
  past : ∀ i, (db.connections i).cachedDataVersion ≤ db.dataVersion i
  head : ∀ i cached, (db.connections i).verifiedHead = some cached →
    db.reading i = true ∨ (db.connections i).cachedDataVersion = db.dataVersion i →
      records.getLast? = some cached

def Step.conn {ι : Type} : Step ι → ι
  | .append i _ | .importCommit i _ | .readVersion i _ => i

/-- a step that commits while another connection is between the commit of its import and its
`data_version` read disturbs that import -/
def Quiet {ι : Type} [DecidableEq ι] (c : Codec) (db : Database ι) (s : Step ι) : Prop :=
  (db.step c s).commits = db.commits ∨ ∀ j, j ≠ s.conn → db.reading j = false

/-- no step of the run disturbs an import -/
def Undisturbed {ι : Type} [DecidableEq ι] (c : Codec) : Database ι → List (Step ι) → Prop
  | _, [] => True
  | db, s :: steps => Quiet c db s ∧ Undisturbed c (db.step c s) steps

namespace Current
variable {ι : Type} [DecidableEq ι] {c : Codec} {db : Database ι} {records : List AuditRecord}

theorem fresh : Current c (Database.fresh : Database ι) [] := by
  refine ⟨Holds.nil, fun i => ?_, fun i cached h _ => absurd h (by simp [Database.fresh, Connection.new])⟩
  show (-1 : Int) ≤ ((0 : Nat) : Int)
  omega

theorem commit (h : Current c db records) {i : ι} {table : List Row} {conn : Connection}
    {reading : Bool} {records' : List AuditRecord} (ht : Holds c table records')
    (hv : conn.cachedDataVersion ≤ db.dataVersion i) (hh : conn.verifiedHead = records'.getLast?)
    (hquiet : ∀ j, j ≠ i → db.reading j = false) :
    Current c (db.commit i table conn reading) records' := by
  refine ⟨ht, fun j => ?_, fun j cached hj huse => ?_⟩
  · rw [Database.dataVersion_commit]
    by_cases e : j = i
    · subst e
      simpa [Database.commit] using hv
    · have hp := h.past j
      show (update db.connections i conn j).cachedDataVersion ≤ _
      rw [update_of_ne e]
      omega
  · by_cases e : j = i
    · subst e
      have hj' : conn.verifiedHead = some cached := by simpa [Database.commit] using hj
      rw [← hh, hj']
    · -- another connection: it reads nothing, and its version lies behind
      rw [Database.dataVersion_commit, if_neg e] at huse
      have hp := h.past j
      have hc' : (db.commit i table conn reading).connections j = db.connections j :=
        update_of_ne e _ _
      have hr' : (db.commit i table conn reading).reading j = db.reading j :=
        update_of_ne e _ _
      rw [hc', hr', hquiet j e] at huse
      rcases huse with hf | hf
      · exact absurd hf (by simp)
      · omega

theorem readVersion (h : Current c db records) {i : ι} (hi : db.reading i = true)
    (succeeds : Bool) : Current c { db with
        connections := update db.connections i
          (if succeeds then { db.connections i with cachedDataVersion := db.dataVersion i }
            else db.connections i), reading := update db.reading i false } records := by
  refine ⟨h.holds, fun j => ?_, fun j cached hj huse => ?_⟩
  · show (update db.connections i _ j).cachedDataVersion ≤ db.dataVersion j
    by_cases e : j = i
    · subst e
      rw [update_self]
      split_ifs
      · exact le_refl _
      · exact h.past j
    · rw [update_of_ne e]
      exact h.past j
  · dsimp only at hj huse
    by_cases e : j = i
    · subst e
      apply h.head j cached _ (Or.inl hi)
      rw [update_self] at hj
      split_ifs at hj <;> exact hj
    · rw [update_of_ne e] at hj huse
      rw [update_of_ne e] at huse
      exact h.head j cached hj huse

theorem step (hc : c.EnvelopesRoundTrip) (h : Current c db records) {s : Step ι}
    (hq : Quiet c db s) : ∃ records', Current c (db.step c s) records' := by
  have hcommit : ∀ i table conn reading, s.conn = i →
      db.step c s = db.commit i table conn reading → ∀ j, j ≠ i → db.reading j = false := by
    intro _ _ _ _ hi e
    rcases hq with hq | hq
    · rw [e] at hq
      exact absurd hq (by simp [Database.commit])
    · rwa [hi] at hq
  obtain e | ⟨i, env, r, table, rfl, _, ha, e⟩ | ⟨i, bytes, imported, table, rfl, _, ha, e⟩ |
    ⟨i, succeeds, _, hi, e⟩ := Database.step_cases c db s
  · rw [e]
    exact ⟨records, h⟩
  · have hquiet := hcommit i _ _ _ rfl e
    rw [e]
    exact ⟨_, h.commit (appendTransaction_holds hc h.holds ha) (le_refl _) (by simp) hquiet⟩
  · have hquiet := hcommit i _ _ _ rfl e
    rw [e]
    exact ⟨_, h.commit (importTransaction_holds hc ha) (h.past i) rfl hquiet⟩
  · rw [e]
    exact ⟨records, h.readVersion hi succeeds⟩

theorem run (hc : c.EnvelopesRoundTrip) (h : Current c db records) {steps : List (Step ι)}
    (hu : Undisturbed c db steps) : ∃ records', Current c (db.run c steps) records' := by
  induction steps generalizing db records with
  | nil => exact ⟨records, h⟩
  | cons _ _ ih =>
    obtain ⟨records', h'⟩ := h.step hc hu.1
    exact ih h' hu.2

theorem trustedHead (h : Current c db records) (i : ι) :
    Audit.trustedHead c (db.connections i) db.table (db.dataVersion i) = .ok records.getLast? := by
  unfold Audit.trustedHead
  cases hv : (db.connections i).verifiedHead with
  | none => exact h.holds.headRecord
  | some cached =>
    dsimp only
    by_cases hver : db.dataVersion i = (db.connections i).cachedDataVersion
    · have hlast := h.head i cached hv (Or.inr hver.symm)
      obtain ⟨row, _, hrow⟩ := h.holds.exists_row (mem_of_getLast? hlast)
      have hb := hrow.bounded
      rw [if_neg (not_not.mpr hver), if_neg (by omega)]
      -- whether or not the row is found, the answer is the head on disk
      split
      · split_ifs
        · rw [hlast]
        · exact h.holds.headRecord
      · exact h.holds.headRecord
    · rw [if_pos hver]
      exact h.holds.headRecord

end Current

/-! ## the two verdicts -/

theorem appendTransaction_of_continues {conn : Connection} (h : Holds c table records)
    (ht : trustedHead c conn table v = .ok records.getLast?) (hr : Continues c records.getLast? r)
    (hi : r.envelope.monotonicSeq ≤ i64Max) (hhash : ∀ row ∈ table, row.hash ≠ r.hash) :
    ∃ table', appendTransaction c conn table v r.envelope = .ok (r, table') := by
  have hval := (validateAgainstHead_ok records.getLast? r.envelope).mpr ⟨hr.sequence, hr.link⟩
  have hrec : AuditRecord.tryFromEnvelope c r.envelope = .ok r :=
    tryFromEnvelope_ok.mpr ⟨rfl, hr.hashed⟩
  have hseq : ∀ q ∈ table, q.monotonicSeq ≠ r.envelope.monotonicSeq := by
    intro q hq he
    have hmem : r.envelope.monotonicSeq ∈ range' 1 records.length := by
      rw [← h.table_sequences, ← he]
      exact mem_map_of_mem hq
    have hnext : r.envelope.monotonicSeq = records.length + 1 := by
      have hs := sequences_of_chained (chained_concat.mpr ⟨h.chained, hr⟩) (fun x hx => by
        rcases mem_append.mp hx with hx | hx
        · obtain ⟨_, _, hrow⟩ := h.exists_row hx
          exact hrow.bounded
        · rw [mem_singleton.mp hx]
          exact hi)
      rw [length_append, length_singleton, range'_concat, map_append] at hs
      have hx := (append_inj' hs rfl).2
      simp at hx
      omega
    rw [mem_range'_1] at hmem
    omega
  obtain ⟨table', hins⟩ := insertRow_of_new hr.hashed hi hseq hhash
  refine ⟨table', ?_⟩
  rw [appendTransaction, ht]
  show (validateAgainstHead records.getLast? r.envelope >>= _) = _
  rw [hval]
  show (AuditRecord.tryFromEnvelope c r.envelope >>= _) = _
  rw [hrec]
  show (insertRow c table r >>= _) = _
  rw [hins]
  rfl

theorem Database.append_fst {ι : Type} [DecidableEq ι] (c : Codec) (db : Database ι) (i : ι)
    (e : EventEnvelope) : (db.append c i e).1 =
      (appendTransaction c (db.connections i) db.table (db.dataVersion i) e).map Prod.fst := by
  unfold append
  cases appendTransaction c (db.connections i) db.table (db.dataVersion i) e <;> rfl

theorem sampleCodec_roundTrip : sampleCodec.EnvelopesRoundTrip := by
  intro _ _ h
  have hm := sampleCodec_canonical h
  simp only [mem_cons, not_mem_nil, or_false] at hm
  rcases hm with ⟨rfl, rfl⟩ | ⟨rfl, rfl⟩ | ⟨rfl, rfl⟩ | ⟨rfl, rfl⟩ | ⟨rfl, rfl⟩ <;> rfl

end Audit

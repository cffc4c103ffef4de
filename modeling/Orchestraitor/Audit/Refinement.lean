import Orchestraitor.Audit.SqliteRuns

/-!
# The SQLite store refines the in-memory store

Whatever the connections of one database cache and however they take turns, the table is the log of
an in-memory store that got the committed calls in the order of their commits.

* `committed c db steps`   the calls that commit in a run;
* `Accepts c m calls`      the in-memory store accepts the calls in turn;
* `step_refines`           a step changes nothing or is one accepted call.
-/

namespace Audit
open Base Database InMemoryAuditStore

section
variable {ι : Type} [DecidableEq ι]

/-- what a step asks of a store -/
def Step.call : Step ι → Option Call
  | .append _ envelope => some (.append envelope)
  | .importCommit _ bytes => some (.importLog bytes)
  | .readVersion _ _ => none

def committed (c : Codec) : Database ι → List (Step ι) → List Call
  | _, [] => []
  | db, s :: steps => (if (db.step c s).commits = db.commits then [] else s.call.toList) ++
      committed c (db.step c s) steps

def Accepts (c : Codec) : InMemoryAuditStore → List Call → Prop
  | _, [] => True
  | m, call :: calls => (m.call c call).1 = none ∧ Accepts c (m.call c call).2 calls

variable {c : Codec} {m : InMemoryAuditStore} {db : Database ι} {r : AuditRecord}
  {table table' : List Row} {v : Int}

/-! ## one transaction -/

/-- an append that commits is one that the in-memory store accepts, within the limits of the table -/
theorem append_of_transaction (hc : c.EnvelopesRoundTrip) {conn : Connection} {e : EventEnvelope}
    (h : Holds c table m.records) (ha : appendTransaction c conn table v e = .ok (r, table')) :
    m.append c e = (.ok r, ⟨m.records ++ [r]⟩) ∧ e.monotonicSeq ≤ i64Max ∧
      ∀ q ∈ m.records, q.hash ≠ r.hash := by
  have h' := appendTransaction_holds hc h ha
  have hr := (chained_concat.mp h'.chained).2
  obtain ⟨_, _, ha⟩ := bind_ok ha
  obtain ⟨_, _, ha⟩ := bind_ok ha
  obtain ⟨r', hrec, ha⟩ := bind_ok ha
  obtain ⟨_, hins, ha⟩ := bind_ok ha
  obtain ⟨rfl, rfl⟩ := Prod.mk.inj (Except.ok.inj ha)
  obtain ⟨rfl, _⟩ := tryFromEnvelope_ok.mp hrec
  obtain ⟨_, _, hrow⟩ := h'.exists_row (List.mem_append_right _ List.mem_cons_self)
  refine ⟨append_of_continues hr, hrow.bounded, ?_⟩
  intro q hq he
  obtain ⟨row, hmem, hof⟩ := h.exists_row hq
  have hany : table.any (fun row => row.hash = r'.hash) = true :=
    List.any_eq_true.mpr ⟨row, hmem, by simp [hof.hash, he]⟩
  unfold insertRow at hins
  dsimp only at hins
  rw [hany] at hins
  split at hins
  · exact absurd hins (by simp)
  · split at hins
    · exact absurd hins (by simp)
    · split at hins <;> exact absurd hins (by simp)

theorem importLog_of_transaction {bytes : Bytes} {imported : List AuditRecord}
    (h : importTransaction c bytes = .ok (imported, table)) :
    m.importLog c bytes = (.ok imported, ⟨imported⟩) := by
  obtain ⟨records, hp, h⟩ := bind_ok h
  obtain ⟨_, hv, h⟩ := bind_ok h
  obtain ⟨_, _, h⟩ := bind_ok h
  obtain ⟨rfl, rfl⟩ := Prod.mk.inj (Except.ok.inj h)
  simp only [importLog, hp, hv]

/-! ## runs -/

theorem step_refines (hc : c.EnvelopesRoundTrip) (h : Holds c db.table m.records) (s : Step ι) :
    ((db.step c s).commits = db.commits ∧ (db.step c s).table = db.table) ∨
    ((db.step c s).commits ≠ db.commits ∧ ∃ call, s.call = some call ∧ (m.call c call).1 = none ∧
      Holds c (db.step c s).table (m.call c call).2.records) := by
  obtain e | ⟨i, env, r, table, rfl, _, ha, e⟩ | ⟨i, bytes, imported, table, rfl, _, ha, e⟩ |
    ⟨i, succeeds, _, _, e⟩ := step_cases c db s
  · rw [e]
    exact Or.inl ⟨rfl, rfl⟩
  · have hm := (append_of_transaction hc h ha).1
    refine Or.inr ⟨by rw [e]; simp [commit], .append env, rfl, ?_⟩
    rw [e, InMemoryAuditStore.call, hm]
    exact ⟨rfl, appendTransaction_holds hc h ha⟩
  · have hm : m.importLog c bytes = _ := importLog_of_transaction ha
    refine Or.inr ⟨by rw [e]; simp [commit], .importLog bytes, rfl, ?_⟩
    rw [e, InMemoryAuditStore.call, hm]
    exact ⟨rfl, importTransaction_holds hc ha⟩
  · rw [e]
    exact Or.inl ⟨rfl, rfl⟩

theorem run_refines (hc : c.EnvelopesRoundTrip) (h : Holds c db.table m.records)
    (steps : List (Step ι)) : Accepts c m (committed c db steps) ∧
      Holds c (db.run c steps).table (m.run c (committed c db steps)).records := by
  induction steps generalizing db m with
  | nil => exact ⟨trivial, h⟩
  | cons s steps ih =>
    obtain ⟨hsame, htable⟩ | ⟨hne, call, hcall, hok, h'⟩ := step_refines hc h s
    · rw [committed, if_pos hsame]
      exact ih (htable ▸ h)
    · rw [committed, if_neg hne, hcall]
      obtain ⟨haccepts, hholds⟩ := ih h'
      exact ⟨⟨hok, haccepts⟩, hholds⟩

end

/-- **Linear history.**  In every run the committed calls are accepted in turn by an in-memory store,
the table is its log, and an append that SQLite accepts is accepted there with the same record.
Where no commit falls into another connection's import, SQLite accepts exactly the appends that the
in-memory store accepts, that fit its integer column and whose hash is not in the log. -/
theorem sqlite_refines_in_memory {ι : Type} [DecidableEq ι] (c : Codec)
    (hc : c.EnvelopesRoundTrip) (steps : List (Step ι)) :
    Accepts c empty (committed c (fresh : Database ι) steps) ∧
    loadVerifiedRecords c ((fresh : Database ι).run c steps).table =
      .ok (empty.run c (committed c (fresh : Database ι) steps)).records ∧
    (∀ i e r, (((fresh : Database ι).run c steps).append c i e).1 = .ok r →
      ((empty.run c (committed c (fresh : Database ι) steps)).append c e).1 = .ok r) ∧
    (Undisturbed c (fresh : Database ι) steps → ∀ i e r,
      (((fresh : Database ι).run c steps).append c i e).1 = .ok r ↔
        ((empty.run c (committed c (fresh : Database ι) steps)).append c e).1 = .ok r ∧
          e.monotonicSeq ≤ i64Max ∧
          ∀ q ∈ (empty.run c (committed c (fresh : Database ι) steps)).records,
            q.hash ≠ r.hash) := by
  have hnil : Holds c (fresh : Database ι).table empty.records := Holds.nil
  obtain ⟨haccepts, h⟩ := run_refines hc hnil steps
  generalize empty.run c (committed c (fresh : Database ι) steps) = m at h ⊢
  have hforward : ∀ i e r, (((fresh : Database ι).run c steps).append c i e).1 = .ok r →
      (m.append c e).1 = .ok r ∧ e.monotonicSeq ≤ i64Max ∧ ∀ q ∈ m.records, q.hash ≠ r.hash := by
    intro i e r hr
    rw [append_fst] at hr
    generalize ht : appendTransaction c _ _ _ e = answer at hr
    cases answer with
    | error => exact absurd hr (by simp [Except.map])
    | ok p =>
      obtain rfl := Except.ok.inj hr
      obtain ⟨hm, hlimits⟩ := append_of_transaction hc h ht
      exact ⟨by rw [hm], hlimits⟩
  refine ⟨haccepts, h.load, fun i e r hr => (hforward i e r hr).1, fun hu i e r => ?_⟩
  refine ⟨hforward i e r, ?_⟩
  rintro ⟨hm, hi, hhash⟩
  obtain ⟨records, hcur⟩ := (Current.fresh (c := c) (ι := ι)).run hc hu
  obtain rfl : records = m.records := Except.ok.inj (hcur.holds.load.symm.trans h.load)
  obtain ⟨err, he⟩ | ⟨r', rfl, hr, he⟩ := append_cases c m e
  · exact absurd hm (by rw [he]; simp)
  · obtain rfl : r' = r := Except.ok.inj (by rw [he] at hm; exact hm)
    obtain ⟨table', ha⟩ := appendTransaction_of_continues h (hcur.trustedHead i) hr hi
      (fun row hrow => by
        obtain ⟨q, hq, hof⟩ := h.exists_record hrow
        rw [hof.hash]
        exact hhash q hq)
    rw [append_fst, ha]
    rfl

theorem sqlite_refines_in_memory_sample :
    ((empty.run sampleCodec (committed sampleCodec (fresh : Database Bool)
      [.importCommit true [1, newline], .append false (sampleEnvelope 2 .null (some "h1")),
        .readVersion true true])).append sampleCodec (sampleEnvelope 3 .null (some "h2"))).1 =
      .ok ⟨sampleEnvelope 3 .null (some "h2"), "h3"⟩ :=
  (sqlite_refines_in_memory sampleCodec sampleCodec_roundTrip _).2.2.1 false _ _ rfl

end Audit

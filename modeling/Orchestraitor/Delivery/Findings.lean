import Orchestraitor.Delivery.ReviewLoop

/-!
# Review findings and their ledger (`findings.rs`)

A finding is keyed by its normalised primary path, its pinned line and its trimmed rule.  The
ledger keeps one entry for every key ever reported and is changed by three operations only.
Each operation returns its result together with the ledger it leaves behind.
-/

namespace Delivery
open Base Std

structure ReviewFinding where
  severity : Severity
  evidence : String
  affectedPaths : List String
  rule : String
  line : Option Nat
  lineEnd : Option Nat
  remediation : String

inductive FindingError where
  | noAffectedPaths
  | blankRule
  | blankEvidence
  | blankRemediation
  | blankHead
  deriving DecidableEq

def FindingError.message : FindingError → String
  | .noAffectedPaths => "finding must name at least one non-blank affected path"
  | .blankRule => "finding must name the violated requirement or rule"
  | .blankEvidence => "finding must carry non-blank evidence"
  | .blankRemediation => "finding must carry a proposed remediation"
  | .blankHead => "reviewed head must be a non-blank identifier"

/-! ## the dedup key -/

structure FindingId where
  path : String
  line : Option Nat
  rule : String
  deriving DecidableEq

namespace FindingId

instance : Ord FindingId where
  compare := compareLex (compareOn path) (compareLex (compareOn line) (compareOn rule))

instance : TransOrd FindingId :=
  inferInstanceAs (TransCmp (compareLex (compareOn path)
    (compareLex (compareOn line) (compareOn rule))))

instance : LawfulEqOrd FindingId where
  eq_of_compare := by
    intro a b h
    obtain ⟨hp, h⟩ := compareLex_eq_eq.mp h
    obtain ⟨hl, hr⟩ := compareLex_eq_eq.mp h
    have hpath : a.path = b.path := Std.compare_eq_iff_eq.mp hp
    have hline : a.line = b.line := Std.compare_eq_iff_eq.mp hl
    have hrule : a.rule = b.rule := Std.compare_eq_iff_eq.mp hr
    cases a
    cases b
    simp_all
  compare_self := compare_self

end FindingId

/-- `while let Some(rest) = s.strip_prefix("./")` -/
def stripDotSlash : List Char → List Char
  | '.' :: '/' :: rest => stripDotSlash rest
  | s => s

/-- `while s.len() > 1 && s.ends_with('/') { s.pop(); }`, on the reversed characters -/
def popSlashes : List Char → List Char
  | '/' :: c :: rest => popSlashes (c :: rest)
  | s => s

def normalizePath (path : String) : String :=
  String.ofList (popSlashes (stripDotSlash (trimList path.toList)).reverse).reverse

example : normalizePath " ././src/lib.rs// " = "src/lib.rs" := by decide
example : normalizePath "//" = "/" := by decide

def FindingId.of (finding : ReviewFinding) : Except FindingError FindingId :=
  match (finding.affectedPaths.map normalizePath).find? (fun p => p ≠ "") with
  | none => .error .noAffectedPaths
  | some path =>
    if isBlank finding.rule then .error .blankRule
    else if isBlank finding.evidence then .error .blankEvidence
    else if isBlank finding.remediation then .error .blankRemediation
    else .ok { path := path, line := finding.line, rule := trim finding.rule }

section paths
open List

/-! ## normal forms of paths -/

/-- neither whitespace nor a slash at the ends, no `./` at the start -/
structure NormalPath (path : String) : Prop where
  start : ∀ c ∈ path.toList.head?, isWhitespace c = false
  last : ∀ c ∈ path.toList.getLast?, isWhitespace c = false
  dot : ¬ ['.', '/'] <+: path.toList
  slash : ∀ init, path.toList = init ++ ['/'] → init = []

def dotSlashes (k : Nat) : List Char := (replicate k ['.', '/']).flatten

/-- the path is `core` with more whitespace around it, leading `./` segments and trailing slashes -/
def Decorates (core path : String) : Prop :=
  ∃ before k n after,
    path.toList = before ++ (dotSlashes k ++ (core.toList ++ replicate n '/')) ++ after ∧
    (∀ c ∈ before, isWhitespace c = true) ∧ ∀ c ∈ after, isWhitespace c = true

theorem stripDotSlash_dotSlashes {l : List Char} (h : ¬ ['.', '/'] <+: l) (k : Nat) :
    stripDotSlash (dotSlashes k ++ l) = l := by
  induction k with
  | zero =>
    show stripDotSlash l = l
    unfold stripDotSlash
    split
    · exact absurd (prefix_append ['.', '/'] _) h
    · rfl
  | succ _ ih => exact ih

theorem exists_dotSlashes (l : List Char) : ∃ k, l = dotSlashes k ++ stripDotSlash l := by
  fun_induction stripDotSlash l with
  | case1 _ ih =>
    obtain ⟨k, heq⟩ := ih
    exact ⟨k + 1, congrArg ('.' :: '/' :: ·) heq⟩
  | case2 => exact ⟨0, rfl⟩

theorem popSlashes_replicate {l : List Char} (hne : l ≠ [])
    (h : ∀ rest, l = '/' :: rest → rest = []) (n : Nat) :
    popSlashes (replicate n '/' ++ l) = l := by
  induction n with
  | zero =>
    show popSlashes l = l
    unfold popSlashes
    split
    · cases h _ rfl
    · rfl
  | succ n ih =>
    obtain ⟨c, rest, hcons⟩ :=
      exists_cons_of_ne_nil (append_ne_nil_of_right_ne_nil (replicate n '/') hne)
    rw [replicate_succ, cons_append, hcons, popSlashes, ← hcons, ih]

theorem exists_slashes (l : List Char) : ∃ n, l = replicate n '/' ++ popSlashes l := by
  fun_induction popSlashes l with
  | case1 _ _ ih =>
    obtain ⟨n, heq⟩ := ih
    exact ⟨n + 1, congrArg ('/' :: ·) heq⟩
  | case2 => exact ⟨0, rfl⟩

theorem exists_trim (l : List Char) : ∃ before after, l = before ++ trimList l ++ after ∧
    (∀ c ∈ before, isWhitespace c = true) ∧ ∀ c ∈ after, isWhitespace c = true := by
  refine ⟨l.takeWhile isWhitespace,
    ((l.dropWhile isWhitespace).reverse.takeWhile isWhitespace).reverse, ?_,
    fun c hc => mem_takeWhile_imp hc, fun c hc => mem_takeWhile_imp (mem_reverse.mp hc)⟩
  rw [trimList, trimEndList, append_assoc, ← reverse_append, takeWhile_append_dropWhile,
    reverse_reverse, takeWhile_append_dropWhile]

theorem decorates_normalizePath (path : String) : Decorates (normalizePath path) path := by
  obtain ⟨before, after, htrim, hbefore, hafter⟩ := exists_trim path.toList
  obtain ⟨k, hk⟩ := exists_dotSlashes (trimList path.toList)
  obtain ⟨n, hn⟩ := exists_slashes (stripDotSlash (trimList path.toList)).reverse
  rw [reverse_eq_iff, reverse_append, reverse_replicate] at hn
  refine ⟨before, k, n, after, ?_, hbefore, hafter⟩
  rw [normalizePath, String.toList_ofList, ← hn, ← hk]
  exact htrim

theorem trimList_eq {before l after : List Char} (hbefore : ∀ c ∈ before, isWhitespace c = true)
    (hafter : ∀ c ∈ after, isWhitespace c = true) (hstart : ∀ c ∈ l.head?, isWhitespace c = false)
    (hlast : ∀ c ∈ l.getLast?, isWhitespace c = false) : trimList (before ++ l ++ after) = l := by
  rw [trimList, append_assoc, dropWhile_append_of_pos hbefore, trimEndList]
  cases l using reverseRecOn with
  | nil => simp [dropWhile_eq_nil_iff.mpr hafter]
  | append_singleton init z =>
    have hdrop : (init ++ [z] ++ after).dropWhile isWhitespace = init ++ [z] ++ after := by
      cases init <;> exact dropWhile_cons_of_neg (by simpa using hstart _ rfl)
    rw [hdrop, reverse_append, dropWhile_append_of_pos (by simpa using hafter), reverse_append,
      reverse_singleton, singleton_append, dropWhile_cons_of_neg (by simpa using hlast z (by simp))]
    simp

theorem normalizePath_decorated {core path : String} (h : NormalPath core) (hpath : Decorates core path) :
    normalizePath path = core ∨
      (core = "" ∨ core = ".") ∧ (normalizePath path = "" ∨ normalizePath path = "/") := by
  obtain ⟨before, k, n, after, heq, hbefore, hafter⟩ := hpath
  have hdots : ∀ c ∈ dotSlashes k, isWhitespace c = false := by
    intro c hc
    obtain ⟨-, rfl | rfl⟩ : k ≠ 0 ∧ (c = '.' ∨ c = '/') := by simpa [dotSlashes] using hc
    · decide
    · decide
  have hends : ∀ c ∈ replicate n '/', isWhitespace c = false := by
    intro c hc
    rw [eq_of_mem_replicate hc]
    decide
  have htrim : trimList path.toList = dotSlashes k ++ (core.toList ++ replicate n '/') := by
    rw [heq]
    refine trimList_eq hbefore hafter (fun c hc => ?_) fun c hc => ?_
    · simp only [head?_append, Option.mem_def, Option.or_eq_some_iff] at hc
      obtain hc | ⟨-, hc | ⟨-, hc⟩⟩ := hc
      exacts [hdots c (mem_of_mem_head? hc), h.start c hc, hends c (mem_of_mem_head? hc)]
    · simp only [getLast?_append, Option.mem_def, Option.or_eq_some_iff] at hc
      obtain (hc | ⟨-, hc⟩) | ⟨-, hc⟩ := hc
      exacts [hends c (mem_of_getLast? hc), h.last c hc, hdots c (mem_of_getLast? hc)]
  have hslashes : ∀ k n, trimList path.toList = dotSlashes k ++ replicate n '/' →
      normalizePath path = "" ∨ normalizePath path = "/" := by
    intro k n htrim
    rw [normalizePath, htrim, stripDotSlash_dotSlashes (by cases n <;> simp [replicate_succ]),
      reverse_replicate]
    cases n with
    | zero => exact .inl rfl
    | succ n =>
      rw [replicate_succ', popSlashes_replicate (by simp) (by simp)]
      exact .inr rfl
  by_cases hdot : ['.', '/'] <+: core.toList ++ replicate n '/'
  · -- the core is a dot, which makes a segment with the first of the slashes
    obtain ⟨rfl, m, rfl⟩ : core = "." ∧ ∃ m, n = m + 1 := by
      rw [← String.toList_inj]
      cases hcore : core.toList with
      | nil => cases n <;> simp [hcore, replicate_succ] at hdot
      | cons a r =>
        cases r with
        | nil => cases n <;> simp [hcore, replicate_succ] at hdot ⊢; exact hdot.symm
        | cons => exact absurd (by simpa [hcore] using hdot) h.dot
    refine .inr ⟨.inr rfl, hslashes (k + 1) m ?_⟩
    rw [htrim, dotSlashes, dotSlashes, replicate_succ' (n := k)]
    simp [replicate_succ]
  · by_cases hcore : core = ""
    · subst hcore
      exact .inr ⟨.inl rfl, hslashes k n htrim⟩
    · left
      rw [normalizePath, htrim, stripDotSlash_dotSlashes hdot, reverse_append, reverse_replicate,
        popSlashes_replicate (by simpa using hcore), reverse_reverse, String.ofList_toList]
      intro rest hrest
      rw [reverse_eq_iff, reverse_cons] at hrest
      exact reverse_eq_nil_iff.mp (h.slash _ hrest)

/-- The result is a normal form, which does not change any more, exactly if the path is one with
more whitespace around it, leading `./` segments and trailing slashes; and all the ways to write a
normal form have one key exactly if it is not empty or a dot. -/
theorem normalize_path_iff (path core : String) :
    (NormalPath (normalizePath path) ∧ normalizePath (normalizePath path) = normalizePath path ↔
      ∃ core, NormalPath core ∧ Decorates core path) ∧
    (NormalPath core →
      ((∀ (finding : ReviewFinding) before p q after, Decorates core p → Decorates core q →
        FindingId.of { finding with affectedPaths := before ++ p :: after } =
          FindingId.of { finding with affectedPaths := before ++ q :: after }) ↔
        core ≠ "" ∧ core ≠ ".")) := by
  refine ⟨⟨fun h => ⟨_, h.1, decorates_normalizePath path⟩, ?_⟩, fun hcore => ⟨fun h => ?_, ?_⟩⟩
  · rintro ⟨core, hcore, hpath⟩
    obtain hr | ⟨-, hr | hr⟩ := normalizePath_decorated hcore hpath
    · rw [hr]
      refine ⟨hcore, ?_⟩
      have hself : Decorates core core := ⟨[], 0, 0, [], by simp [dotSlashes], by simp, by simp⟩
      obtain h | ⟨rfl | rfl, -⟩ := normalizePath_decorated hcore hself
      · exact h
      · decide
      · decide
    · rw [hr]
      exact ⟨⟨by simp, by simp, by simp, by simp⟩, by decide⟩
    · rw [hr]
      exact ⟨⟨by simp; rfl, by simp; rfl, by decide, by simp⟩, by decide⟩
  · let finding : ReviewFinding := ⟨.low, "evidence", [], "rule", none, none, "fix"⟩
    constructor
    · rintro rfl
      exact absurd (h finding [] "" "/" [] ⟨[], 0, 0, [], rfl, by simp, by simp⟩
        ⟨[], 0, 1, [], rfl, by simp, by simp⟩) (by decide)
    · rintro rfl
      exact absurd (h finding [] "." "./" [] ⟨[], 0, 0, [], rfl, by simp, by simp⟩
        ⟨[], 0, 1, [], rfl, by simp, by simp⟩) (by decide)
  · rintro ⟨hne, hdot⟩ finding before p q after hp hq
    have hkey : ∀ path, Decorates core path → normalizePath path = core := fun path hpath =>
      (normalizePath_decorated hcore hpath).resolve_right fun hr => hr.1.elim hne hdot
    simp only [FindingId.of, map_append, map_cons, hkey p hp, hkey q hq]

/-- Whitespace behind a leading `./` or before a trailing slash stays, and two paths that differ in a
leading `./` only have two keys. -/
theorem normalize_path_exposes : normalizePath "./ a" = " a" ∧ normalizePath "a /" = "a " ∧
    normalizePath (normalizePath "./ a") = "a" ∧
    FindingId.of ⟨.low, "evidence", ["./ a"], "rule", none, none, "fix"⟩ ≠
      FindingId.of ⟨.low, "evidence", [" a"], "rule", none, none, "fix"⟩ := by
  decide

end paths

/-! ## the ledger -/

inductive FindingStatus where
  | opened | resolved
  deriving DecidableEq

inductive RecordOutcome where
  | new | reReported | reopened
  deriving DecidableEq

structure LedgerEntry where
  id : FindingId
  finding : ReviewFinding
  firstSeenLoop : Nat
  lastSeenLoop : Nat
  occurrences : Nat
  maxSeverity : Severity
  headsSeen : List String
  status : FindingStatus
  stale : Bool

namespace LedgerEntry

def first (id : FindingId) (finding : ReviewFinding) (loopNumber : Nat) (head : Option String) :
    LedgerEntry where
  id := id
  finding := finding
  firstSeenLoop := loopNumber
  lastSeenLoop := loopNumber
  occurrences := 1
  maxSeverity := finding.severity
  headsSeen := head.toList
  status := .opened
  stale := false

def seenAt (headsSeen : List String) : Option String → List String
  | none => headsSeen
  | some head => if headsSeen.getLast? = some head then headsSeen else headsSeen ++ [head]

def report (entry : LedgerEntry) (finding : ReviewFinding) (loopNumber : Nat)
    (head : Option String) : LedgerEntry :=
  { entry with
    status := .opened
    lastSeenLoop := max entry.lastSeenLoop loopNumber
    occurrences := satAdd32 entry.occurrences 1
    maxSeverity :=
      if entry.maxSeverity < finding.severity then finding.severity else entry.maxSeverity
    headsSeen := seenAt entry.headsSeen head
    stale := false
    finding := finding }

theorem report_id (entry : LedgerEntry) (finding : ReviewFinding) (loopNumber : Nat)
    (head : Option String) : (entry.report finding loopNumber head).id = entry.id := rfl

def flagStale (entry : LedgerEntry) : LedgerEntry :=
  if entry.status = .opened then { entry with stale := true } else entry

def resolve (entry : LedgerEntry) : LedgerEntry := { entry with status := .resolved }

def live (entry : LedgerEntry) : Bool := entry.status == .opened && !entry.stale

def blocking (minimumToBlock : Severity) (entry : LedgerEntry) : Bool :=
  entry.live && entry.maxSeverity.blocks minimumToBlock

theorem report_maxSeverity (entry : LedgerEntry) (finding : ReviewFinding) (loopNumber : Nat)
    (head : Option String) : (entry.report finding loopNumber head).maxSeverity =
      max entry.maxSeverity finding.severity := by
  show (if entry.maxSeverity < finding.severity then _ else _) = _
  split_ifs with h
  · rw [max_eq_right (Std.le_of_lt h)]
  · rw [max_eq_left (Std.not_lt.mp h)]

theorem flagStale_live (entry : LedgerEntry) : entry.flagStale.live = false := by
  unfold flagStale live
  split_ifs with h
  · simp
  · simp [h]

end LedgerEntry

/-- entries are stored under their own key -/
structure FindingLedger where
  entries : OrdMap FindingId LedgerEntry
  currentHead : Option String
  keyed : ∀ (k : FindingId) (e : LedgerEntry), entries[k]? = some e → e.id = k

namespace FindingLedger

def new : FindingLedger where
  entries := ∅
  currentHead := none
  keyed := by simp

def entry (l : FindingLedger) (id : FindingId) : Option LedgerEntry := l.entries[id]?

variable (l : FindingLedger)

def mapEntries (f : FindingId → LedgerEntry → LedgerEntry) (hf : ∀ k e, (f k e).id = e.id) :
    FindingLedger where
  entries := l.entries.map f
  currentHead := l.currentHead
  keyed := by
    intro k e h
    rw [ExtTreeMap.getElem?_map, Option.map_eq_some_iff] at h
    obtain ⟨e', he', rfl⟩ := h
    rw [hf, l.keyed k e' he']

def put (k : FindingId) (e : LedgerEntry) (he : e.id = k) :
    FindingLedger where
  entries := l.entries.insert k e
  currentHead := l.currentHead
  keyed := by
    intro k' e' h
    rw [OrdMap.get_insert] at h
    split_ifs at h with hk
    · rw [← Option.some.inj h, he, hk]
    · exact l.keyed k' e' h

def setHead (head : String) : FindingLedger :=
  { l with currentHead := some head }

def noteHead (head : String) : Except FindingError Unit × FindingLedger :=
  if isBlank head then (.error .blankHead, l)
  else if l.currentHead = some (trim head) then (.ok (), l)
  else (.ok (), (l.setHead (trim head)).mapEntries (fun _ e => e.flagStale) (by
    intro k e
    unfold LedgerEntry.flagStale
    split_ifs <;> rfl))

def record (finding : ReviewFinding) (loopNumber : Nat) :
    Except FindingError (FindingId × RecordOutcome) × FindingLedger :=
  match FindingId.of finding with
  | .error err => (.error err, l)
  | .ok id =>
    match h : l.entries[id]? with
    | some entry =>
      let outcome := if entry.status = .resolved then .reopened else .reReported
      (.ok (id, outcome),
        l.put id (entry.report finding loopNumber l.currentHead)
          ((entry.report_id finding loopNumber l.currentHead).trans (l.keyed id entry h)))
    | none => (.ok (id, .new), l.put id (.first id finding loopNumber l.currentHead) rfl)

def unreported (reported : OrdSet FindingId) (id : FindingId) (entry : LedgerEntry) : Bool :=
  entry.status == .opened && !reported.contains id

def resolveUnreported (reported : OrdSet FindingId) : Nat × FindingLedger :=
  (l.entries.countP (unreported reported),
    l.mapEntries (fun id e => if unreported reported id e then e.resolve else e) (by
      intro k e
      split_ifs <;> rfl))

def blockingOpenCount (minimumToBlock : Severity) : Nat :=
  l.entries.countP (fun _ e => e.blocking minimumToBlock)

/-! ## what an operation does to the entry of one key -/

@[simp] theorem entry_new (k : FindingId) : new.entry k = none := by
  simp [entry, new]

theorem entry_mapEntries (f : FindingId → LedgerEntry → LedgerEntry) (hf : ∀ k e, (f k e).id = e.id)
    (k : FindingId) : (l.mapEntries f hf).entry k = (l.entry k).map (f k) := ExtTreeMap.getElem?_map

theorem entry_put (k a : FindingId) (e : LedgerEntry) (he : e.id = k) :
    (l.put k e he).entry a = if a = k then some e else l.entry a := OrdMap.get_insert _ _ _ _

/-- the head that `note_head` accepts, if it differs from the current one -/
def movesTo (current : Option String) (head : String) : Bool :=
  !isBlank head && current != some (trim head)

theorem entry_noteHead (head : String) (k : FindingId) : (l.noteHead head).2.entry k =
      if movesTo l.currentHead head then (l.entry k).map LedgerEntry.flagStale else l.entry k := by
  unfold noteHead movesTo
  by_cases hb : isBlank head = true
  · simp [hb]
  · by_cases hc : l.currentHead = some (trim head)
    · simp [hb, hc]
    · rw [if_neg hb, if_neg hc, entry_mapEntries]
      simp [hb, hc, setHead, entry]

theorem currentHead_noteHead (head : String) : (l.noteHead head).2.currentHead =
      if isBlank head then l.currentHead else some (trim head) := by
  unfold noteHead
  by_cases hb : isBlank head = true
  · simp [hb]
  · by_cases hc : l.currentHead = some (trim head)
    · simp [hb, hc]
    · simp [hb, hc, mapEntries, setHead]

def reportOn (id : FindingId) (finding : ReviewFinding) (loopNumber : Nat) :
    LedgerEntry :=
  match l.entry id with
  | some entry => entry.report finding loopNumber l.currentHead
  | none => .first id finding loopNumber l.currentHead

theorem record_ok {finding : ReviewFinding} {id : FindingId} (loopNumber : Nat)
    (h : FindingId.of finding = .ok id) :
    (∃ outcome, (l.record finding loopNumber).1 = .ok (id, outcome)) ∧
    (l.record finding loopNumber).2.currentHead = l.currentHead ∧
    ∀ k, (l.record finding loopNumber).2.entry k =
      if k = id then some (l.reportOn id finding loopNumber) else l.entry k := by
  unfold record
  rw [h]
  dsimp only
  split
  · next e he =>
    have hr : l.reportOn id finding loopNumber = e.report finding loopNumber l.currentHead := by
      unfold reportOn entry
      rw [he]
    exact ⟨⟨_, rfl⟩, rfl, fun k => by rw [hr]; exact entry_put l id k (e.report _ _ _) (l.keyed id e he)⟩
  · next he =>
    have hr : l.reportOn id finding loopNumber = .first id finding loopNumber l.currentHead := by
      unfold reportOn entry
      rw [he]
    exact ⟨⟨_, rfl⟩, rfl, fun k => by rw [hr]; exact entry_put l id k (.first _ _ _ _) rfl⟩

theorem record_error {finding : ReviewFinding} {err : FindingError} (loopNumber : Nat)
    (h : FindingId.of finding = .error err) : l.record finding loopNumber = (.error err, l) := by
  unfold record
  rw [h]

theorem unreported_iff {reported : OrdSet FindingId} {id : FindingId} {entry : LedgerEntry} :
    unreported reported id entry = true ↔ entry.status = .opened ∧ id ∉ reported := by
  rw [unreported, Bool.and_eq_true, beq_iff_eq, Bool.not_eq_true', ← Bool.not_eq_true,
    ExtTreeSet.mem_iff_contains]

theorem entry_resolveUnreported (reported : OrdSet FindingId) (k : FindingId) :
    (l.resolveUnreported reported).2.entry k =
      (l.entry k).map (fun e => if unreported reported k e then e.resolve else e) := by
  rw [resolveUnreported, entry_mapEntries]

end FindingLedger
end Delivery

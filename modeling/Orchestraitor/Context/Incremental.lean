import Orchestraitor.Context.Index

/-!
# An incremental pass and a fresh one

The state that the index describes is a map from paths to bytes.  `Anchored` says what paths, bytes and blobs
hold of it and `Named` what the symbols do; during a pass the state is the old one with the files that are
done replaced, and a symbol of a file that is done hides an old one with the same id.

Contents are anchored to one path each and parsed under the path where they are first seen.  So a pass is a
fresh one only as long as no content is in two files and none moves (`incremental_equals_fresh`).
-/

namespace Context
open Base Std List Function

abbrev Files := String → Option Bytes

def filesAt (files : List SourceFile) : Files := fun path =>
  (files.find? (·.relative = path)).bind (·.read.toOption)

section
variable (tools : Toolchain)

def fileSymbols (path : String) (bytes : Bytes) : OrdMap String SymbolRecord :=
  match tools.extract path bytes with
  | .ok captures => captures.foldl (fun symbols capture =>
      let symbol := buildSymbol path bytes (tools.digest bytes) capture
      symbols.insert symbol.id symbol) ∅
  | .error _ => ∅

/-- no content is in two files -/
def NoCopies (files : Files) : Prop := ∀ p q b, files p = some b → files q = some b → p = q

def NoMoves (old new : Files) : Prop := ∀ p q b, old p = some b → new q = some b → p = q

/-- two files have no symbol id in common -/
def Apart (files : Files) : Prop := ∀ p q b b', files p = some b → files q = some b' → p ≠ q →
  ∀ id : String, (fileSymbols tools p b)[id]? = none ∨ (fileSymbols tools q b')[id]? = none

def ApartFrom (files : Files) (p : String) (b : Bytes) (among : String → Prop) : Prop :=
  ∀ q b', q ≠ p → among q → files q = some b' →
    ∀ id : String, (fileSymbols tools p b)[id]? = none ∨ (fileSymbols tools q b')[id]? = none

/-- paths, bytes and blobs are those of the state -/
structure Anchored (files : Files) (index : ContextIndex) : Prop where
  distinct : NoCopies files
  paths : ∀ p, index.paths[p]? = (files p).map tools.digest
  bytes : ∀ d b, index.bytes[d]? = some b ↔ tools.digest b = d ∧ ∃ p, files p = some b
  blobs : ∀ d r, index.blobs[d]? = some r →
    ∃ p b age, files p = some b ∧ tools.digest b = d ∧ r = blobRecord tools p d age
  stored : ∀ p b, files p = some b → tools.digest b ∈ index.blobs

/-- the symbols are those of the state, one of a fresh file before one of another -/
def Named (files : Files) (fresh : String → Prop) (symbols : OrdMap String SymbolRecord) : Prop :=
  ∀ (id : String) s, symbols[id]? = some s ↔ ∃ p b, files p = some b ∧ (fileSymbols tools p b)[id]? = some s ∧
    (fresh p ∨ ∀ q b', fresh q → files q = some b' → (fileSymbols tools q b')[id]? = none)

def Parsed (files : Files) : Prop := ∀ p b, files p = some b → ∃ captures, tools.extract p b = .ok captures

/-- the index describes the state, in which the files `fresh` were indexed by this pass -/
structure Described (files : Files) (fresh : String → Prop) (index : ContextIndex) : Prop where
  anchored : Anchored tools files index
  named : Named tools files fresh index.symbols
  parsed : Parsed tools files

variable {files : List SourceFile} {p : String} {b : Bytes} {index : ContextIndex} {repo : Repository}
  {r : ContextIndex × IndexReport}

theorem update_none_iff {files : Files} {q : String} :
    update files p none q = some b ↔ q ≠ p ∧ files q = some b := by
  by_cases hq : q = p
  · simp [hq]
  · simp [hq]

theorem update_some_iff {files : Files} {q : String} {b' : Bytes} :
    update files p (some b) q = some b' ↔ q = p ∧ b' = b ∨ q ≠ p ∧ files q = some b' := by
  by_cases hq : q = p
  · simp [hq, eq_comm]
  · simp [hq]

/-! ## symbols of a file -/

theorem get_foldl_insert (symbols : List SymbolRecord) (m : OrdMap String SymbolRecord) (id : String) :
    (symbols.foldl (fun m s => m.insert s.id s) m)[id]? =
      (symbols.foldl (fun m s => m.insert s.id s) (∅ : OrdMap String SymbolRecord))[id]?.or m[id]? := by
  induction symbols using reverseRecOn with
  | nil => simp
  | append_singleton _ _ ih =>
    simp only [foldl_append, foldl_cons, foldl_nil, OrdMap.get_insert]
    split_ifs
    · rfl
    · exact ih

theorem foldl_insertSymbol (symbols : List SymbolRecord) (index : ContextIndex) :
    symbols.foldl ContextIndex.insertSymbol index =
      { index with symbols := symbols.foldl (fun m s => m.insert s.id s) index.symbols } := by
  induction symbols generalizing index with
  | nil => rfl
  | cons s _ ih => exact ih (index.insertSymbol s)

theorem parseBlob_ok {index' : ContextIndex} {path : String} {bytes : Bytes}
    (h : parseBlob tools index path bytes (tools.digest bytes) = .ok index') :
    (∃ captures, tools.extract path bytes = .ok captures) ∧
      (∀ id : String, index'.symbols[id]? = (fileSymbols tools path bytes)[id]?.or index.symbols[id]?) ∧
      index' = { index with symbols := index'.symbols } := by
  obtain ⟨captures, hextract, h⟩ := bind_ok h
  have h : _ = index' := Except.ok.inj h
  rw [← foldl_map, foldl_insertSymbol] at h
  subst h
  refine ⟨⟨captures, hextract⟩, fun id => ?_, rfl⟩
  rw [get_foldl_insert, fileSymbols, hextract, foldl_map]

theorem fileSymbols_digest {path : String} {bytes : Bytes} {id : String} {s : SymbolRecord}
    (h : (fileSymbols tools path bytes)[id]? = some s) : s.blobDigest = tools.digest bytes := by
  unfold fileSymbols at h
  split at h
  · rename_i captures hextract
    clear hextract
    induction captures using reverseRecOn with
    | nil => simp at h
    | append_singleton _ _ ih =>
      simp only [foldl_append, foldl_cons, foldl_nil, OrdMap.get_insert] at h
      split_ifs at h
      · rw [← Option.some.inj h]
        rfl
      · exact ih h
  · simp at h

/-! ## a path is taken away -/

section
variable {tools} {files : Files} {fresh : String → Prop} {index : ContextIndex} {p : String} {b : Bytes}

theorem removePath_none (h : Anchored tools files index) (hp : files p = none) :
    index.removePath p = index := by
  have hpath : index.paths[p]? = none := by rw [h.paths, hp, Option.map_none]
  rw [ContextIndex.removePath, hpath]

theorem update_none (hp : files p = none) : update files p none = files := by
  rw [← hp, update_eq_self]

variable (hdigest : Function.Injective tools.digest)
include hdigest

theorem Anchored.digest_ne (h : Anchored tools files index) (hp : files p = some b) {q : String}
    {b' : Bytes} (hne : q ≠ p) (hq : files q = some b') : tools.digest b' ≠ tools.digest b :=
  fun hsame => hne (h.distinct q p b (hdigest hsame ▸ hq) hp)

theorem removePath_eq (h : Anchored tools files index) (hp : files p = some b) :
    index.removePath p =
      ContextIndex.purgeDigestData { index with paths := index.paths.erase p } (tools.digest b) := by
  have hpath : index.paths[p]? = some (tools.digest b) := by rw [h.paths, hp, Option.map_some]
  have hlast : ((index.paths.erase p).toList.map Prod.snd).contains (tools.digest b) = false := by
    rw [Bool.eq_false_iff]
    intro hcontains
    obtain ⟨⟨q, d⟩, hq, hd⟩ := mem_map.mp (contains_iff_mem.mp hcontains)
    have hget := OrdMap.get_of_mem_toList _ hq
    rw [OrdMap.get_erase] at hget
    split_ifs at hget with hqp
    rw [h.paths, Option.map_eq_some_iff] at hget
    obtain ⟨b', hb', hsame⟩ := hget
    exact h.digest_ne hdigest hp hqp hb' (hsame.trans hd)
  rw [ContextIndex.removePath, hpath]
  simp only [hlast, Bool.false_eq_true, if_false]

theorem Anchored.removePath (h : Anchored tools files index) (p : String) :
    Anchored tools (update files p none) (index.removePath p) := by
  cases hp : files p with
  | none =>
    rw [removePath_none h hp, update_none hp]
    exact h
  | some b =>
    have hkept : ∀ {q b' d}, tools.digest b' = d → d ≠ tools.digest b → files q = some b' → q ≠ p := by
      rintro q b' d rfl hd hq rfl
      exact hd (congrArg tools.digest (Option.some.inj (hq.symm.trans hp)))
    rw [removePath_eq hdigest h hp]
    constructor
    · intro q q' b' hq hq'
      exact h.distinct q q' b' (update_none_iff.mp hq).2 (update_none_iff.mp hq').2
    · intro q
      show (index.paths.erase p)[q]? = _
      rw [OrdMap.get_erase]
      split_ifs with hq
      · simp [hq]
      · rw [h.paths, update_of_ne hq]
    · intro d b'
      show (index.bytes.erase (tools.digest b))[d]? = some b' ↔ _
      rw [OrdMap.get_erase]
      split_ifs with hd
      · refine iff_of_false (by simp) ?_
        rintro ⟨hb', q, hq⟩
        obtain ⟨hne, hq⟩ := update_none_iff.mp hq
        exact h.digest_ne hdigest hp hne hq (hb'.trans hd)
      · rw [h.bytes]
        refine and_congr_right fun hb' => exists_congr fun q => ?_
        rw [update_none_iff]
        exact (and_iff_right_of_imp (hkept hb' hd)).symm
    · intro d r hr
      have hr : (index.blobs.erase (tools.digest b))[d]? = some r := hr
      rw [OrdMap.get_erase] at hr
      split_ifs at hr with hd
      obtain ⟨q, b', age, hq, hb', rfl⟩ := h.blobs d r hr
      exact ⟨q, b', age, update_none_iff.mpr ⟨hkept hb' hd hq, hq⟩, hb', rfl⟩
    · intro q b' hq
      obtain ⟨hne, hq⟩ := update_none_iff.mp hq
      show tools.digest b' ∈ index.blobs.erase (tools.digest b)
      rw [ExtTreeMap.mem_erase, ne_eq, Std.compare_eq_iff_eq]
      exact ⟨fun heq => h.digest_ne hdigest hp hne hq heq.symm, h.stored q b' hq⟩

theorem Named.removePath (hanchored : Anchored tools files index) (h : Named tools files fresh index.symbols)
    (hp : ¬ fresh p) : Named tools (update files p none) fresh (index.removePath p).symbols := by
  cases hfile : files p with
  | none =>
    rw [removePath_none hanchored hfile, update_none hfile]
    exact h
  | some b =>
    rw [removePath_eq hdigest hanchored hfile]
    intro id s
    show (index.symbols.filter fun _ symbol => symbol.blobDigest ≠ tools.digest b)[id]? = some s ↔ _
    rw [ExtTreeMap.getElem?_filter', Option.filter_eq_some_iff, h]
    -- the files that hide others are fresh, so they stay
    have hhide : (∀ q b', fresh q → update files p none q = some b' →
          (fileSymbols tools q b')[id]? = none) ↔
        ∀ q b', fresh q → files q = some b' → (fileSymbols tools q b')[id]? = none := by
      refine forall_congr' fun q => forall_congr' fun b' => imp_congr_right fun hq => ?_
      have hne : q ≠ p := by
        rintro rfl
        exact hp hq
      rw [update_of_ne hne]
    constructor
    · rintro ⟨⟨q, b', hq, hs, hvisible⟩, hdiffers⟩
      have hne : q ≠ p := by
        rintro rfl
        rw [hfile] at hq
        rw [← Option.some.inj hq] at hs
        exact of_decide_eq_true hdiffers (fileSymbols_digest tools hs)
      exact ⟨q, b', update_none_iff.mpr ⟨hne, hq⟩, hs, hvisible.imp_right hhide.mpr⟩
    · rintro ⟨q, b', hq, hs, hvisible⟩
      obtain ⟨hne, hq⟩ := update_none_iff.mp hq
      refine ⟨⟨q, b', hq, hs, hvisible.imp_right hhide.mp⟩, decide_eq_true fun hsame => ?_⟩
      rw [fileSymbols_digest tools hs] at hsame
      exact hanchored.digest_ne hdigest hfile hne hq hsame

/-! ## a file is put in its place -/

def place (tools : Toolchain) (index : ContextIndex) (p : String) (b : Bytes) (age : ContextAge) :
    ContextIndex :=
  ContextIndex.reassociatePath { index with
    bytes := index.bytes.insert (tools.digest b) b
    blobs := index.blobs.insert (tools.digest b) (blobRecord tools p (tools.digest b) age) }
    p (tools.digest b)

theorem place_paths (h : Anchored tools files index) {age : ContextAge}
    (hnew : ∀ q, files q = some b → q = p) :
    (place tools index p b age).paths = index.paths.insert p (tools.digest b) := by
  have hstale : (index.paths.toList.filter fun entry =>
      entry.2 = tools.digest b ∧ entry.1 ≠ p).map Prod.fst = [] := by
    rw [map_eq_nil_iff, filter_eq_nil_iff]
    rintro ⟨q, d⟩ hq hentry
    obtain ⟨hd, hne⟩ := of_decide_eq_true hentry
    have hget := OrdMap.get_of_mem_toList _ hq
    rw [h.paths, Option.map_eq_some_iff] at hget
    obtain ⟨b', hb', hsame⟩ := hget
    exact hne (hnew q (hdigest (hsame.trans hd) ▸ hb'))
  unfold place ContextIndex.reassociatePath
  simp only [hstale, foldl_nil]

theorem Anchored.place (h : Anchored tools files index) (age : ContextAge)
    (hnew : ∀ q, files q = some b → q = p) (hp : files p = none ∨ files p = some b) :
    Anchored tools (update files p (some b)) (place tools index p b age) := by
  have hrest : ∀ {q b'}, update files p (some b) q = some b' ↔
      q = p ∧ b' = b ∨ files q = some b' := by
    intro _ _
    rw [update_some_iff]
    refine or_congr_right' fun hother => and_iff_right_of_imp ?_
    rintro hq rfl
    refine hother ⟨rfl, ?_⟩
    obtain hnone | hsome := hp
    · rw [hnone] at hq
      cases hq
    · exact Option.some.inj (hq.symm.trans hsome)
  constructor
  · intro q q' b' hq hq'
    obtain ⟨rfl, rfl⟩ | hq := hrest.mp hq
    · obtain ⟨rfl, -⟩ | hq' := hrest.mp hq'
      · rfl
      · exact (hnew q' hq').symm
    · obtain ⟨rfl, rfl⟩ | hq' := hrest.mp hq'
      · exact hnew q ‹files q = _›
      · exact h.distinct q q' b' hq hq'
  · intro q
    rw [place_paths hdigest h hnew, OrdMap.get_insert]
    split_ifs with hq
    · rw [hq, update_self, Option.map_some]
    · rw [h.paths, update_of_ne hq]
  · intro d b'
    show (index.bytes.insert (tools.digest b) b)[d]? = some b' ↔ _
    rw [OrdMap.get_insert]
    split_ifs with hd
    · rw [Option.some.injEq, hd]
      constructor
      · rintro rfl
        exact ⟨rfl, p, update_self ..⟩
      · rintro ⟨hsame, -⟩
        exact (hdigest hsame).symm
    · rw [h.bytes]
      refine and_congr_right fun hb' => exists_congr fun q => ?_
      rw [hrest]
      refine (or_iff_right ?_).symm
      rintro ⟨-, rfl⟩
      exact hd hb'.symm
  · intro d r hr
    have hr : (index.blobs.insert (tools.digest b) (blobRecord tools p (tools.digest b) age))[d]? = some r :=
      hr
    rw [OrdMap.get_insert] at hr
    split_ifs at hr with hd
    · exact ⟨p, b, age, update_self .., hd.symm, by rw [hd]; exact (Option.some.inj hr).symm⟩
    · obtain ⟨q, b', age', hq, hb', rfl⟩ := h.blobs d r hr
      exact ⟨q, b', age', hrest.mpr (.inr hq), hb', rfl⟩
  · intro q b' hq
    show tools.digest b' ∈ index.blobs.insert (tools.digest b) _
    rw [OrdMap.mem_insert_iff]
    obtain ⟨-, rfl⟩ | hq := hrest.mp hq
    · exact .inl rfl
    · exact .inr (h.stored q b' hq)

omit hdigest

theorem Named.put (h : Named tools files fresh index.symbols)
    (hp : files p = none ∨ files p = some b) (hapart : ApartFrom tools files p b fresh)
    {symbols : OrdMap String SymbolRecord}
    (hsymbols : ∀ id : String, symbols[id]? = (fileSymbols tools p b)[id]?.or index.symbols[id]?) :
    Named tools (update files p (some b)) (fun q => fresh q ∨ q = p) symbols := by
  have hown : ∀ {b'}, files p = some b' → b' = b := by
    intro _ hfile
    obtain hnone | hsome := hp
    · rw [hnone] at hfile
      cases hfile
    · exact Option.some.inj (hfile.symm.trans hsome)
  intro id s
  rw [hsymbols]
  cases hid : (fileSymbols tools p b)[id]? with
  | some =>
    constructor
    · rintro ⟨⟩
      exact ⟨p, b, update_self .., hid, .inl (.inr rfl)⟩
    · rintro ⟨q, b', hq, hs, hvisible⟩
      obtain ⟨rfl, rfl⟩ | ⟨hqp, hq⟩ := update_some_iff.mp hq
      · exact hid.symm.trans hs
      obtain (hfresh | hqp') | hhidden := hvisible
      · have hnone := (hapart q b' hqp hfresh hq id).resolve_left (by rw [hid]; simp)
        rw [hs] at hnone
        cases hnone
      · exact absurd hqp' hqp
      · have hnone := hhidden p b (.inr rfl) (update_self ..)
        rw [hid] at hnone
        cases hnone
  | none =>
    -- a file with a symbol of this id is another one
    have hother : ∀ {q b'}, files q = some b' → (fileSymbols tools q b')[id]? = some s → q ≠ p := by
      rintro q b' hq hs rfl
      rw [hown hq, hid] at hs
      cases hs
    rw [Option.none_or, h]
    constructor
    · rintro ⟨q, b', hq, hs, hvisible⟩
      refine ⟨q, b', update_some_iff.mpr (.inr ⟨hother hq hs, hq⟩), hs, ?_⟩
      obtain hfresh | hhidden := hvisible
      · exact .inl (.inl hfresh)
      refine .inr fun q' b'' hq' hfile => ?_
      obtain ⟨rfl, rfl⟩ | ⟨hqp, hfile⟩ := update_some_iff.mp hfile
      · exact hid
      · exact hhidden q' b'' (hq'.resolve_right hqp) hfile
    · rintro ⟨q, b', hq, hs, hvisible⟩
      obtain ⟨rfl, rfl⟩ | ⟨hqp, hq⟩ := update_some_iff.mp hq
      · rw [hid] at hs
        cases hs
      refine ⟨q, b', hq, hs, ?_⟩
      obtain (hfresh | hqp') | hhidden := hvisible
      · exact .inl hfresh
      · exact absurd hqp' hqp
      refine .inr fun q' b'' hfresh hfile => ?_
      by_cases hqp' : q' = p
      · subst hqp'
        rwa [hown hfile]
      · exact hhidden q' b'' (.inl hfresh) (update_some_iff.mpr (.inr ⟨hqp', hfile⟩))

theorem Named.kept (h : Named tools files fresh index.symbols) (hp : files p = some b)
    (hapart : ApartFrom tools files p b fun _ => True) (id : String) :
    index.symbols[id]? = (fileSymbols tools p b)[id]?.or index.symbols[id]? := by
  cases hid : (fileSymbols tools p b)[id]? with
  | none => rw [Option.none_or]
  | some =>
    rw [Option.some_or, h]
    refine ⟨p, b, hp, hid, ?_⟩
    by_cases hfresh : fresh p
    · exact .inl hfresh
    refine .inr fun q b' hq hfile => ?_
    have hqp : q ≠ p := by
      rintro rfl
      exact hfresh hq
    exact (hapart q b' hqp trivial hfile id).resolve_left (by rw [hid]; simp)

theorem parsed_update (h : Parsed tools files) {captures : List Capture}
    (hextract : tools.extract p b = .ok captures) : Parsed tools (update files p (some b)) := by
  intro q b' hq
  obtain ⟨rfl, rfl⟩ | ⟨-, hq⟩ := update_some_iff.mp hq
  · exact ⟨captures, hextract⟩
  · exact h q b' hq

include hdigest

/-! ## one file of a pass -/

theorem mem_blobs_iff (h : Anchored tools files index) (b : Bytes) :
    tools.digest b ∈ index.blobs ↔ ∃ p, files p = some b := by
  constructor
  · intro hmem
    obtain ⟨r, hr⟩ := (OrdMap.mem_iff_get _ _).mp hmem
    obtain ⟨p, b', -, hp, hsame, -⟩ := h.blobs _ r hr
    exact ⟨p, hdigest hsame ▸ hp⟩
  · rintro ⟨p, hp⟩
    exact h.stored p b hp

variable {index' : ContextIndex} {report : IndexReport}

theorem upsertBlob_current (h : Described tools files fresh index) (hp : files p = none)
    (hnew : ∀ q, files q ≠ some b) (hapart : ApartFrom tools files p b fresh)
    (hok : upsertBlob tools index p b (tools.digest b) .current = .ok index') :
    Described tools (update files p (some b)) (fun q => fresh q ∨ q = p) index' := by
  obtain ⟨⟨captures, hextract⟩, hsymbols, hsame⟩ := parseBlob_ok tools hok
  have hplaced := h.anchored.place hdigest .current (fun q hq => absurd hq (hnew q)) (.inl hp)
  refine ⟨?_, h.named.put (.inl hp) hapart hsymbols, parsed_update h.parsed hextract⟩
  rw [hsame]
  exact ⟨hplaced.distinct, hplaced.paths, hplaced.bytes, hplaced.blobs, hplaced.stored⟩

theorem indexPath_spec (h : Described tools files fresh index) {file : SourceFile}
    (hread : file.read = .ok b) (hfresh : ¬ fresh file.relative)
    (hnew : ∀ q, files q = some b → q = file.relative)
    (hapart : ApartFrom tools files file.relative b fun q => fresh q ∨ files file.relative = some b)
    {report' : IndexReport}
    (hok : indexPath tools file index report = .ok (index', report')) :
    Described tools (update files file.relative (some b))
      (fun q => fresh q ∨ q = file.relative) index' := by
  simp only [indexPath, hread] at hok
  cases hp : files file.relative with
  | none =>
    have hnone : ∀ q, files q ≠ some b := by
      intro q hq
      rw [hnew q hq, hp] at hq
      cases hq
    have hblob : tools.digest b ∉ index.blobs := by
      rw [mem_blobs_iff hdigest h.anchored]
      exact fun ⟨q, hq⟩ => hnone q hq
    have hpath : index.paths[file.relative]? = none := by rw [h.anchored.paths, hp, Option.map_none]
    simp only [classifyAge, hpath, if_neg hblob] at hok
    obtain ⟨next, hnext, hok⟩ := bind_ok hok
    obtain ⟨rfl, -⟩ := Prod.mk.inj (Except.ok.inj hok)
    exact upsertBlob_current hdigest h hp hnone (fun q b' hne hq => hapart q b' hne (.inl hq)) hnext
  | some old =>
    have hpath : index.paths[file.relative]? = some (tools.digest old) := by
      rw [h.anchored.paths, hp, Option.map_some]
    by_cases hsame : old = b
    · -- unchanged: only the age of its blob is new
      subst hsame
      simp only [classifyAge, hpath] at hok
      obtain ⟨next, hnext, hok⟩ := bind_ok hok
      obtain ⟨rfl, -⟩ := Prod.mk.inj (Except.ok.inj hok)
      obtain rfl : place tools index file.relative old .reusedUnchanged = next := Except.ok.inj hnext
      have hall : ApartFrom tools files file.relative old fun _ => True :=
        fun q b' hne _ => hapart q b' hne (.inr hp)
      refine ⟨h.anchored.place hdigest .reusedUnchanged hnew (.inr hp), ?_, ?_⟩
      · exact h.named.put (.inr hp) (fun q b' hne hq => hapart q b' hne (.inl hq)) (h.named.kept hp hall)
      · rw [← hp, update_eq_self]
        exact h.parsed
    · -- changed: the old content goes first
      have hdiffers : tools.digest old ≠ tools.digest b := fun h => hsame (hdigest h)
      have hremoved : Described tools (update files file.relative none) fresh
          (index.removePath file.relative) :=
        ⟨h.anchored.removePath hdigest file.relative, h.named.removePath hdigest h.anchored hfresh,
          fun q b' hq => h.parsed q b' (update_none_iff.mp hq).2⟩
      have hnone : ∀ q, update files file.relative none q ≠ some b := by
        intro q hq
        obtain ⟨hne, hq⟩ := update_none_iff.mp hq
        exact hne (hnew q hq)
      have hblob : tools.digest b ∉ (index.removePath file.relative).blobs := by
        rw [mem_blobs_iff hdigest hremoved.anchored]
        exact fun ⟨q, hq⟩ => hnone q hq
      simp only [classifyAge, hpath, if_neg hdiffers, if_neg hblob] at hok
      obtain ⟨next, hnext, hok⟩ := bind_ok hok
      obtain ⟨rfl, -⟩ := Prod.mk.inj (Except.ok.inj hok)
      have hspec := upsertBlob_current hdigest hremoved (update_self ..) hnone
        (fun q b' hne hq hfile => hapart q b' hne (.inl hq) (update_none_iff.mp hfile).2) hnext
      rw [update_idem] at hspec
      exact hspec

omit hdigest

/-! ## the files of a pass -/

def mid (old new : Files) (done : List String) : Files := fun p => if p ∈ done then new p else old p

theorem mid_concat {old new : Files} {done : List String} (h : new p = some b) :
    update (mid old new done) p (some b) = mid old new (done ++ [p]) := by
  funext q
  by_cases hq : q = p
  · subst hq
    rw [update_self, mid, if_pos (by simp), h]
  · rw [update_of_ne hq, mid, mid]
    simp [hq]

theorem indexPath_reads {file : SourceFile} {r : ContextIndex × IndexReport}
    (h : indexPath tools file index report = .ok r) : ∃ b, file.read = .ok b := by
  cases hr : file.read with
  | ok b => exact ⟨b, rfl⟩
  | error =>
    simp only [indexPath, hr] at h
    cases h

include hdigest

theorem indexFiles_spec {old new : Files} (hcopies : NoCopies new) (hmoves : NoMoves old new)
    (hold : Apart tools old) (hnew : Apart tools new) {rest : List SourceFile} {done : List String}
    (hnodup : (rest.map (·.relative)).Nodup) (hleft : ∀ f ∈ rest, f.relative ∉ done)
    (hread : ∀ f ∈ rest, new f.relative = f.read.toOption)
    (h : Described tools (mid old new done) (· ∈ done) index) {report' : IndexReport}
    (hok : indexFiles tools rest index report = .ok (index', report')) :
    Described tools (mid old new (done ++ rest.map (·.relative)))
      (· ∈ done ++ rest.map (·.relative)) index' := by
  induction rest generalizing done index report with
  | nil =>
    obtain ⟨rfl, -⟩ := Prod.mk.inj (Except.ok.inj hok)
    rw [map_nil, append_nil]
    exact h
  | cons file rest ih =>
    obtain ⟨⟨next, report1⟩, hnext, hok⟩ := bind_ok hok
    obtain ⟨hnotin, hnodup⟩ := nodup_cons.mp hnodup
    have hfile := hread file mem_cons_self
    have hdone := hleft file mem_cons_self
    obtain ⟨b, hb⟩ := indexPath_reads hnext
    rw [hb] at hfile
    have hfile : new file.relative = some b := hfile
    -- the content is in no other file of either state
    have hunique : ∀ q, mid old new done q = some b → q = file.relative := by
      intro q hq
      rw [mid] at hq
      split_ifs at hq
      · exact hcopies q file.relative b hq hfile
      · exact hmoves q file.relative b hq hfile
    have hapart : ApartFrom tools (mid old new done) file.relative b fun q =>
        q ∈ done ∨ mid old new done file.relative = some b := by
      intro q b' hne hor hq
      rw [mid, if_neg hdone] at hor
      rw [mid] at hq
      split_ifs at hq with hqdone
      · exact hnew file.relative q b b' hfile hq (Ne.symm hne)
      · exact hold file.relative q b b' (hor.resolve_left hqdone) hq (Ne.symm hne)
    have hspec := indexPath_spec hdigest h hb hdone hunique hapart hnext
    have hmem : (fun q => q ∈ done ∨ q = file.relative) = (· ∈ done ++ [file.relative]) := by
      funext q
      simp
    rw [mid_concat hfile, hmem] at hspec
    have hleft' : ∀ f ∈ rest, f.relative ∉ done ++ [file.relative] := by
      intro f hf hin
      obtain hin | hin := mem_append.mp hin
      · exact hleft f (mem_cons_of_mem _ hf) hin
      · refine hnotin ?_
        show file.relative ∈ _
        rw [← mem_singleton.mp hin]
        exact mem_map_of_mem hf
    have hrest := ih hnodup hleft' (fun f hf => hread f (mem_cons_of_mem _ hf)) hspec hok
    rw [append_assoc] at hrest
    exact hrest

/-! ## what is left of the old state -/

omit hdigest

def dropAll (removed : List String) (files : Files) : Files :=
  removed.foldl (fun files p => Function.update files p none) files

theorem dropAll_apply (removed : List String) (files : Files) (p : String) :
    dropAll removed files p = if p ∈ removed then none else files p := by
  induction removed generalizing files with
  | nil => simp [dropAll]
  | cons q _ ih =>
    refine (ih (update files q none)).trans ?_
    by_cases hp : p = q
    · simp [hp]
    · simp [hp]

include hdigest

theorem removeAll_spec {removed : List String} (hold : ∀ p ∈ removed, ¬ fresh p)
    (hanchored : Anchored tools files index) (hnamed : Named tools files fresh index.symbols) :
    Anchored tools (dropAll removed files) (removed.foldl ContextIndex.removePath index) ∧
      Named tools (dropAll removed files) fresh (removed.foldl ContextIndex.removePath index).symbols := by
  induction removed generalizing files index with
  | nil => exact ⟨hanchored, hnamed⟩
  | cons p _ ih =>
    exact ih (fun q hq => hold q (mem_cons_of_mem p hq)) (hanchored.removePath hdigest p)
      (hnamed.removePath hdigest hanchored (hold p mem_cons_self))

end

theorem filesAt_of_mem (hnodup : (files.map (·.relative)).Nodup) {f : SourceFile} (hf : f ∈ files) :
    filesAt files f.relative = f.read.toOption := by
  have hfind : files.find? (fun g => decide (g.relative = f.relative)) = some f :=
    find_of_key (inj_on_of_nodup_map hnodup) hf
  rw [filesAt, hfind]
  rfl

theorem mem_of_filesAt (h : filesAt files p = some b) : p ∈ files.map (·.relative) := by
  obtain ⟨g, hg, -⟩ := Option.bind_eq_some_iff.mp h
  have hp : g.relative = p := by simpa using find?_some hg
  exact hp ▸ mem_map_of_mem (mem_of_find?_eq_some hg)

/-- the index describes the state -/
structure Settled (files : Files) (index : ContextIndex) : Prop where
  anchored : Anchored tools files index
  named : Named tools files (fun _ => True) index.symbols
  parsed : Parsed tools files
  apart : Apart tools files

theorem settled_empty : Settled tools (fun _ => none) {} where
  anchored :=
    { distinct := fun p q b hp => by cases hp
      paths := fun p => by simp
      bytes := fun d b => by simp
      blobs := fun d r hr => by simp at hr
      stored := fun p b hp => by cases hp }
  named := fun id s => by simp
  parsed := fun p b hp => by cases hp
  apart := fun p q b b' hp => by cases hp

/-- A pass over a state without copies and moves describes that state. -/
theorem pass_spec (hdigest : Function.Injective tools.digest) {old : Files}
    (h : Settled tools old index) (hwalk : repo.walk = .ok files)
    (hcopies : NoCopies (filesAt files)) (hapart : Apart tools (filesAt files))
    (hmoves : NoMoves old (filesAt files)) {index' : ContextIndex} {report : IndexReport}
    (hok : indexRepository tools index repo = .ok (index', report)) :
    Settled tools (filesAt files) index' ∧ index'.rebuildReferencesAndCalls = index' := by
  rw [indexRepository, hwalk] at hok
  obtain ⟨traversed, htraversed, hok⟩ := bind_ok hok
  obtain rfl : files = traversed := Except.ok.inj htraversed
  obtain ⟨⟨next, report1⟩, hnext, hok⟩ := bind_ok hok
  obtain ⟨rfl, -⟩ := Prod.mk.inj (Except.ok.inj hok)
  have hnodup := repo.nodup files hwalk
  have hstart : mid old (filesAt files) [] = old := by
    funext p
    simp [mid]
  have hnamed : Named tools old (· ∈ ([] : List String)) index.symbols := by
    intro id s
    rw [h.named id s]
    simp
  have hspec := indexFiles_spec hdigest hcopies hmoves h.apart hapart hnodup
    (fun _ _ => not_mem_nil) (fun f hf => filesAt_of_mem hnodup hf)
    (by rw [hstart]; exact ⟨h.anchored, hnamed, h.parsed⟩) hnext
  rw [nil_append] at hspec
  obtain ⟨hanchored, hnamed, hparsed⟩ := hspec
  obtain ⟨removed, hremoved⟩ : ∃ removed, removed = next.paths.keys.filter fun path =>
      path ∉ files.map (·.relative) := ⟨_, rfl⟩
  have hgone : ∀ p, p ∈ removed ↔ next.paths[p]? ≠ none ∧ p ∉ files.map (·.relative) := by
    intro p
    rw [hremoved]
    simp
  have hold : ∀ p ∈ removed, p ∉ files.map (·.relative) := fun p hp => ((hgone p).mp hp).2
  have hnew : dropAll removed (mid old (filesAt files) (files.map (·.relative))) = filesAt files := by
    funext p
    rw [dropAll_apply]
    by_cases hp : p ∈ files.map (·.relative)
    · rw [if_neg fun hmem => hold p hmem hp, mid, if_pos hp]
    · rw [Option.eq_none_iff_forall_ne_some.mpr fun b hb => hp (mem_of_filesAt hb)]
      split_ifs with hmem
      · rfl
      · have hnone : next.paths[p]? = none := by
          by_contra hsome
          exact hmem ((hgone p).mpr ⟨hsome, hp⟩)
        rw [hanchored.paths, Option.map_eq_none_iff] at hnone
        exact hnone
  obtain ⟨hanchored', hnamed'⟩ := removeAll_spec hdigest hold hanchored hnamed
  rw [hnew] at hanchored' hnamed'
  have hevict : next.evictOrphanedPaths (files.map (·.relative)) =
      removed.foldl ContextIndex.removePath next := by
    rw [hremoved]
    rfl
  rw [hevict]
  refine ⟨⟨?_, ?_, ?_, hapart⟩, rfl⟩
  · exact ⟨hanchored'.distinct, hanchored'.paths, hanchored'.bytes, hanchored'.blobs, hanchored'.stored⟩
  · intro id s
    refine (hnamed' id s).trans ?_
    refine exists_congr fun p => exists_congr fun b => and_congr_right fun hp => and_congr_right fun _ => ?_
    -- every file of the state is fresh
    exact iff_of_true (.inl (mem_of_filesAt hp)) (.inl trivial)
  · intro p b hp
    refine hparsed p b ?_
    rwa [mid, if_pos (mem_of_filesAt hp)]

/-! ## two indexes of one state -/

def ReferenceRecord.ageless (r : ReferenceRecord) : ReferenceRecord :=
  { r with provenance := { r.provenance with age := .current } }

theorem references_ageless (symbol : SymbolRecord) (p d : String) (age age' : ContextAge)
    (source : List (List Char)) :
    (referencesForSymbol symbol (blobRecord tools p d age) source).map ReferenceRecord.ageless =
      (referencesForSymbol symbol (blobRecord tools p d age') source).map ReferenceRecord.ageless := by
  rw [referencesForSymbol, referencesForSymbol, map_flatMap, map_flatMap]
  refine flatMap_congr fun ⟨line, lineIndex⟩ _ => ?_
  dsimp only
  split_ifs
  · rfl
  · rw [map_map, map_map]
    rfl

section
variable {tools} (hdigest : Function.Injective tools.digest) {files : Files} {i j : ContextIndex}
  (hi : Settled tools files i) (hj : Settled tools files j)
include hi hj

theorem Settled.symbols_eq : i.symbols = j.symbols := by
  refine ExtTreeMap.ext_getElem? fun id => Option.ext fun s => ?_
  rw [hi.named id s, hj.named id s]

theorem Settled.bytes_eq : i.bytes = j.bytes := by
  refine ExtTreeMap.ext_getElem? fun d => Option.ext fun b => ?_
  rw [hi.anchored.bytes, hj.anchored.bytes]

theorem Settled.calls_eq : i.rebuildReferencesAndCalls.calls = j.rebuildReferencesAndCalls.calls := by
  simp only [ContextIndex.rebuildReferencesAndCalls, ContextIndex.symbolList, hi.symbols_eq hj,
    hi.bytes_eq hj]

include hdigest in
theorem Settled.references_eq : i.rebuildReferencesAndCalls.references.map ReferenceRecord.ageless =
    j.rebuildReferencesAndCalls.references.map ReferenceRecord.ageless := by
  simp only [ContextIndex.rebuildReferencesAndCalls, ContextIndex.symbolList, hi.symbols_eq hj,
    hi.bytes_eq hj, map_flatMap]
  refine flatMap_congr fun symbol _ => ?_
  cases hbytes : j.bytes[symbol.blobDigest]? with
  | none => rfl
  | some b =>
    -- both indexes have the blob of this content under its one path
    obtain ⟨hb, p, hp⟩ := (hj.anchored.bytes _ b).mp hbytes
    have hblob : ∀ {k : ContextIndex}, Settled tools files k →
        ∃ age, k.blobs[symbol.blobDigest]? = some (blobRecord tools p symbol.blobDigest age) := by
      intro k hk
      obtain ⟨r, hr⟩ := (OrdMap.mem_iff_get _ _).mp (hk.anchored.stored p b hp)
      obtain ⟨q, b', age, hq, hb', rfl⟩ := hk.anchored.blobs _ r hr
      have hsame : q = p := hk.anchored.distinct q p b (hdigest hb' ▸ hq) hp
      rw [hb, hsame] at hr
      exact ⟨age, hr⟩
    obtain ⟨age, hage⟩ := hblob hi
    obtain ⟨age', hage'⟩ := hblob hj
    rw [hage, hage']
    exact references_ageless tools symbol p symbol.blobDigest age age' _

end

/-! ## a fresh pass succeeds -/

theorem indexFiles_reads {report : IndexReport} (h : indexFiles tools files index report = .ok r) :
    ∀ f ∈ files, ∃ b, f.read = .ok b := by
  induction files generalizing index report with
  | nil => exact fun f hf => absurd hf not_mem_nil
  | cons _ _ ih =>
    obtain ⟨⟨next, report'⟩, hnext, h⟩ := bind_ok h
    intro f hf
    obtain rfl | hf := mem_cons.mp hf
    · exact indexPath_reads hnext
    · exact ih h f hf

theorem upsertBlob_succeeds {captures : List Capture} (h : tools.extract p b = .ok captures)
    (index : ContextIndex) (digest : String) (age : ContextAge) :
    ∃ index', upsertBlob tools index p b digest age = .ok index' := by
  cases age with
  | reusedUnchanged => exact ⟨_, rfl⟩
  | current =>
    have hparse : ∀ index, ∃ index', parseBlob tools index p b digest = .ok index' := by
      intro _
      rw [parseBlob, h]
      exact ⟨_, rfl⟩
    exact hparse _

theorem indexFiles_succeeds
    (h : ∀ f ∈ files, ∃ b captures, f.read = .ok b ∧ tools.extract f.relative b = .ok captures)
    (index : ContextIndex) (report : IndexReport) :
    ∃ r, indexFiles tools files index report = .ok r := by
  induction files generalizing index report with
  | nil => exact ⟨_, rfl⟩
  | cons file _ ih =>
    obtain ⟨b, captures, hread, hextract⟩ := h file mem_cons_self
    have hnext : ∃ r, indexPath tools file index report = .ok r := by
      simp only [indexPath, hread]
      obtain ⟨index', hindex'⟩ := upsertBlob_succeeds tools hextract
        (classifyAge index file.relative (tools.digest b)
          { report with observedBlobs := satAdd64 report.observedBlobs 1 }).2.1 (tools.digest b)
        (classifyAge index file.relative (tools.digest b)
          { report with observedBlobs := satAdd64 report.observedBlobs 1 }).1
      rw [hindex']
      exact ⟨_, rfl⟩
    obtain ⟨⟨next, report'⟩, hnext⟩ := hnext
    obtain ⟨r, hr⟩ := ih (fun f hf => h f (mem_cons_of_mem file hf)) next report'
    refine ⟨r, ?_⟩
    rw [indexFiles, hnext]
    exact hr

theorem indexRepository_succeeds {r : Repository} (hwalk : r.walk = .ok files)
    (h : ∀ f ∈ files, ∃ b captures, f.read = .ok b ∧ tools.extract f.relative b = .ok captures)
    (index : ContextIndex) : ∃ next report, indexRepository tools index r = .ok (next, report) := by
  obtain ⟨⟨next, report⟩, hnext⟩ := indexFiles_succeeds tools h index {}
  refine ⟨(next.evictOrphanedPaths (files.map (·.relative))).rebuildReferencesAndCalls, report, ?_⟩
  rw [indexRepository, hwalk]
  show Except.bind (indexFiles tools files index {}) _ = _
  rw [hnext]
  rfl

/-! ## runs -/

/-- along the run, every state that is indexed has no copies and no shared symbol ids, and no content has
moved since the last one -/
def Steady (index : ContextIndex) (last : Files) : List Repository → Prop
  | [] => True
  | repo :: repos => match repo.walk, indexRepository tools index repo with
    | .ok files, .ok (next, _) => NoCopies (filesAt files) ∧ Apart tools (filesAt files) ∧
        NoMoves last (filesAt files) ∧ Steady next (filesAt files) repos
    | _, _ => Steady index last repos

theorem indexRepository_walk (h : indexRepository tools index repo = .ok r) :
    ∃ files, repo.walk = .ok files := by
  obtain ⟨files, hfiles, -⟩ := bind_ok h
  exact ⟨files, hfiles⟩

theorem steady_run (hdigest : Function.Injective tools.digest) {repos : List Repository}
    {last : Files} (h : Settled tools last index)
    (hsteady : Steady tools index last (repos ++ [repo])) (hwalk : repo.walk = .ok files)
    (hok : indexRepository tools (indexAll tools index repos) repo = .ok r) :
    ∃ old, Settled tools old (indexAll tools index repos) ∧ NoCopies (filesAt files) ∧
      Apart tools (filesAt files) ∧ NoMoves old (filesAt files) := by
  induction repos generalizing index last with
  | nil =>
    have hok : indexRepository tools index repo = .ok r := hok
    obtain ⟨next, report⟩ := r
    rw [nil_append, Steady, hwalk, hok] at hsteady
    exact ⟨last, h, hsteady.1, hsteady.2.1, hsteady.2.2.1⟩
  | cons first _ ih =>
    rw [cons_append, Steady] at hsteady
    rw [indexAll] at hok ⊢
    cases hpass : indexRepository tools index first with
    | error =>
      rw [hpass] at hok hsteady
      refine ih h ?_ hok
      cases hw : first.walk <;> rw [hw] at hsteady <;> exact hsteady
    | ok s =>
      obtain ⟨next, report⟩ := s
      obtain ⟨files', hwalk'⟩ := indexRepository_walk tools hpass
      rw [hpass] at hok
      rw [hpass, hwalk'] at hsteady
      obtain ⟨hcopies, hapart, hmoves, hrest⟩ := hsteady
      exact ih (pass_spec tools hdigest h hwalk' hcopies hapart hmoves hpass).1 hrest hok

end

/-- After a pass of a steady run the index describes the last state, and what it says of the symbols is what
a fresh index of that state says. -/
theorem incremental_equals_fresh (tools : Toolchain) (hdigest : Function.Injective tools.digest)
    (repos : List Repository) (repo : Repository) (files : List SourceFile)
    (hwalk : repo.walk = .ok files) (hsteady : Steady tools {} (fun _ => none) (repos ++ [repo]))
    (index : ContextIndex) (report : IndexReport)
    (hok : indexRepository tools (indexAll tools {} repos) repo = .ok (index, report)) :
    (∀ p, index.paths[p]? = (filesAt files p).map tools.digest) ∧
    (∀ d, d ∈ index.blobs ↔ ∃ p b, filesAt files p = some b ∧ tools.digest b = d) ∧
    (∀ d b, index.bytes[d]? = some b ↔ tools.digest b = d ∧ ∃ p, filesAt files p = some b) ∧
    ∃ fresh report', indexRepository tools {} repo = .ok (fresh, report') ∧
      index.symbols = fresh.symbols ∧
      index.references.map ReferenceRecord.ageless = fresh.references.map ReferenceRecord.ageless ∧
      index.calls = fresh.calls := by
  obtain ⟨old, hold, hcopies, hapart, hmoves⟩ :=
    steady_run tools hdigest (settled_empty tools) hsteady hwalk hok
  obtain ⟨hsettled, hrebuilt⟩ := pass_spec tools hdigest hold hwalk hcopies hapart hmoves hok
  refine ⟨hsettled.anchored.paths, fun d => ?_, hsettled.anchored.bytes, ?_⟩
  · constructor
    · intro hd
      obtain ⟨r, hr⟩ := (OrdMap.mem_iff_get _ _).mp hd
      obtain ⟨p, b, -, hp, hb, -⟩ := hsettled.anchored.blobs d r hr
      exact ⟨p, b, hp, hb⟩
    · rintro ⟨p, b, hp, rfl⟩
      exact hsettled.anchored.stored p b hp
  · -- what was read and parsed once is read and parsed again
    have hnodup := repo.nodup files hwalk
    have hfiles : ∀ f ∈ files, ∃ b captures, f.read = .ok b ∧ tools.extract f.relative b = .ok captures := by
      intro f hf
      have hreads : ∃ b, f.read = .ok b := by
        rw [indexRepository, hwalk] at hok
        obtain ⟨traversed, htraversed, hok⟩ := bind_ok hok
        obtain rfl : files = traversed := Except.ok.inj htraversed
        obtain ⟨_, hpass, -⟩ := bind_ok hok
        exact indexFiles_reads tools hpass f hf
      obtain ⟨b, hb⟩ := hreads
      have hat : filesAt files f.relative = some b := by
        rw [filesAt_of_mem hnodup hf, hb]
        rfl
      obtain ⟨captures, hcaptures⟩ := hsettled.parsed f.relative b hat
      exact ⟨b, captures, hb, hcaptures⟩
    obtain ⟨fresh, report', hfresh⟩ := indexRepository_succeeds tools hwalk hfiles {}
    obtain ⟨hsettled', hrebuilt'⟩ := pass_spec tools hdigest (settled_empty tools) hwalk hcopies hapart
      (fun p q b hp => by cases hp) hfresh
    refine ⟨fresh, report', hfresh, hsettled.symbols_eq hsettled', ?_, ?_⟩
    · rw [← hrebuilt, ← hrebuilt']
      exact hsettled.references_eq hdigest hsettled'
    · rw [← hrebuilt, ← hrebuilt']
      exact hsettled.calls_eq hsettled'

def plainTools : Toolchain where
  digest bytes := String.ofList (bytes.map fun byte => Char.ofNat byte.toNat)
  language _ := some .rust
  extract _ _ := .ok [{ name := "f", range := ⟨1, 0, 1, 3⟩, kind := .function }]

theorem plainTools_digest : Function.Injective plainTools.digest := by
  intro b b' h
  have hchars : b.map (fun byte => Char.ofNat byte.toNat) = b'.map fun byte => Char.ofNat byte.toNat := by
    rw [← String.toList_ofList (l := b.map _), ← String.toList_ofList (l := b'.map _)]
    exact congrArg String.toList h
  refine map_injective_iff.mpr (fun x y hxy => ?_) hchars
  have hlt : ∀ z : UInt8, (Char.ofNat z.toNat).toNat = z.toNat := by decide +kernel
  have hnat := congrArg Char.toNat hxy
  simp only [hlt] at hnat
  exact UInt8.toNat.inj hnat

def sourceFile (path : String) (bytes : Bytes) : SourceFile := ⟨"/repo/" ++ path, path, .ok bytes⟩

def oneFile (path : String) (bytes : Bytes) : Repository where
  walk := .ok [sourceFile path bytes]
  nodup files h := by
    cases h
    exact List.nodup_singleton path

def twoFiles (bytes bytes' : Bytes) : Repository where
  walk := .ok [sourceFile "a.rs" bytes, sourceFile "b.rs" bytes']
  nodup files h := by
    cases h
    show ["a.rs", "b.rs"].Nodup
    decide

section twoFiles
variable {bytes bytes' b : Bytes} {p : String}

theorem twoFiles_at : filesAt [sourceFile "a.rs" bytes, sourceFile "b.rs" bytes'] p = some b ↔
    p = "a.rs" ∧ b = bytes ∨ p = "b.rs" ∧ b = bytes' := by
  unfold filesAt sourceFile
  by_cases ha : p = "a.rs"
  · subst ha
    simp [Except.toOption, eq_comm]
  by_cases hb : p = "b.rs"
  · subst hb
    simp [Except.toOption, eq_comm]
  · simp [ha, hb, eq_comm]

theorem twoFiles_noCopies (h : bytes ≠ bytes') :
    NoCopies (filesAt [sourceFile "a.rs" bytes, sourceFile "b.rs" bytes']) := by
  intro p q b hp hq
  obtain ⟨rfl, rfl⟩ | ⟨rfl, rfl⟩ := twoFiles_at.mp hp <;> obtain ⟨rfl, hb⟩ | ⟨rfl, hb⟩ := twoFiles_at.mp hq
  · rfl
  · exact absurd hb h
  · exact absurd hb.symm h
  · rfl

theorem plain_symbols {path id : String} (h : id ≠ path ++ ":" ++ toString 1 ++ ":" ++ "f") :
    (fileSymbols plainTools path b)[id]? = none := by
  exact (OrdMap.get_insert ..).trans (if_neg h)

theorem twoFiles_apart :
    Apart plainTools (filesAt [sourceFile "a.rs" bytes, sourceFile "b.rs" bytes']) := by
  intro p q b b' hp hq hne id
  have hids : "a.rs:1:f" ≠ "b.rs:1:f" := by decide
  obtain ⟨rfl, -⟩ | ⟨rfl, -⟩ := twoFiles_at.mp hp <;> obtain ⟨rfl, -⟩ | ⟨rfl, -⟩ := twoFiles_at.mp hq
  · exact absurd rfl hne
  · by_cases hid : id = "a.rs:1:f"
    · exact .inr (plain_symbols (hid ▸ hids))
    · exact .inl (plain_symbols hid)
  · by_cases hid : id = "a.rs:1:f"
    · exact .inl (plain_symbols (hid ▸ hids))
    · exact .inr (plain_symbols hid)
  · exact absurd rfl hne

theorem twoFiles_parse (bytes bytes' : Bytes) :
    ∀ f ∈ [sourceFile "a.rs" bytes, sourceFile "b.rs" bytes'], ∃ b captures,
      f.read = .ok b ∧ plainTools.extract f.relative b = .ok captures := by
  intro f hf
  obtain rfl | hf := mem_cons.mp hf
  · exact ⟨bytes, _, rfl, rfl⟩
  · rw [mem_singleton.mp hf]
    exact ⟨bytes', _, rfl, rfl⟩

end twoFiles

/-- one of two files is edited -/
theorem incremental_equals_fresh_edit : ∃ index report,
    indexRepository plainTools (indexAll plainTools {} [twoFiles [102] [104]]) (twoFiles [103] [104]) =
        .ok (index, report) ∧
      index.paths["a.rs"]? = some (plainTools.digest [103]) ∧
      index.paths["b.rs"]? = some (plainTools.digest [104]) ∧
      ∃ fresh report', indexRepository plainTools {} (twoFiles [103] [104]) = .ok (fresh, report') ∧
        index.symbols = fresh.symbols := by
  have hmoves : NoMoves (filesAt [sourceFile "a.rs" [102], sourceFile "b.rs" [104]])
      (filesAt [sourceFile "a.rs" [103], sourceFile "b.rs" [104]]) := by
    intro p q b hp hq
    obtain ⟨rfl, rfl⟩ | ⟨rfl, rfl⟩ := twoFiles_at.mp hp <;> obtain ⟨rfl, hb⟩ | ⟨rfl, hb⟩ := twoFiles_at.mp hq
    · rfl
    · exact absurd hb (by decide)
    · exact absurd hb (by decide)
    · rfl
  obtain ⟨first, report1, hfirst⟩ := indexRepository_succeeds plainTools (r := twoFiles [102] [104]) rfl
    (twoFiles_parse _ _) {}
  have hall : indexAll plainTools {} [twoFiles [102] [104]] = first := by
    rw [indexAll, hfirst]
    rfl
  obtain ⟨index, report, hindex⟩ := indexRepository_succeeds plainTools (r := twoFiles [103] [104]) rfl
    (twoFiles_parse _ _) first
  have hsteady : Steady plainTools {} (fun _ => none) ([twoFiles [102] [104]] ++ [twoFiles [103] [104]]) := by
    show Steady plainTools {} (fun _ => none) [twoFiles [102] [104], twoFiles [103] [104]]
    rw [Steady, hfirst]
    refine ⟨twoFiles_noCopies (by decide), twoFiles_apart, fun p q b hp => absurd hp (by simp), ?_⟩
    rw [Steady, hindex]
    exact ⟨twoFiles_noCopies (by decide), twoFiles_apart, hmoves, trivial⟩
  rw [← hall] at hindex
  obtain ⟨hpaths, -, -, fresh, report', hfresh, hsymbols, -⟩ := incremental_equals_fresh plainTools
    plainTools_digest _ _ _ rfl hsteady index report hindex
  refine ⟨index, report, hindex, ?_, ?_, fresh, report', hfresh, hsymbols⟩
  · rw [hpaths, twoFiles_at.mpr (.inl ⟨rfl, rfl⟩), Option.map_some]
  · rw [hpaths, twoFiles_at.mpr (.inr ⟨rfl, rfl⟩), Option.map_some]

/-- One of two copies has no path; after a move the symbols have the old path and id. -/
theorem copies_and_moves_misindexed :
    Function.Injective plainTools.digest ∧
    (filesAt [sourceFile "a.rs" [102], sourceFile "b.rs" [102]] "a.rs" = some [102] ∧
      (indexAll plainTools {} [twoFiles [102] [102]]).paths["a.rs"]? = none) ∧
    ((indexAll plainTools {} [oneFile "a.rs" [102], oneFile "b.rs" [102]]).symbols["b.rs:1:f"]?.isSome =
        false ∧
      (indexAll plainTools {} [oneFile "a.rs" [102], oneFile "b.rs" [102]]).symbols["a.rs:1:f"]?.isSome =
        true ∧
      (indexAll plainTools {} [oneFile "b.rs" [102]]).symbols["b.rs:1:f"]?.isSome = true) := by
  refine ⟨plainTools_digest, ⟨by decide, ?_⟩, ?_, ?_, ?_⟩
  all_goals decide +kernel

end Context

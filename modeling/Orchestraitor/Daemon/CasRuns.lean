import Orchestraitor.Daemon.Cas

/-!
# Concurrent stores

Any number of `storeBytes` calls run on one root, interleaved at their file-system steps, and any of them may
stop for ever at any step.  `Undisturbed` says of a step that nobody else opened the temporary file of the
digest since the call did.  In every interleaving of such steps (`stores_undisturbed`) a file at the path of a
digest has that digest, every call returns its digest, and what was stored can be loaded.
-/

namespace Daemon
open Base Base.Calls

/-- how far a call is -/
inductive Stage where
  | start
  | absent
  | ready
  | opened (file : Nat)
  | written (file : Nat)
  | stored

/-- the steps of a store that works -/
def storeMonitor (root : Path) (caller : Nat) (digest : Digest) (bytes : Bytes) :
    Monitor FileAnswer Stage where
  permits
    | .start, .isFile path => path = objectPath root digest
    | .absent, .createDirAll path => path = shardPath root digest
    | .ready, .openTruncate who path => who = caller ∧ path = tempPath root digest
    | .opened file, .write file' bytes' => file' = file ∧ bytes' = bytes
    | .written _, .rename source target => source = tempPath root digest ∧ target = objectPath root digest
    | _, _ => False
  expects
    | _, .isFile _, _ => True
    | _, .createDirAll _, answer => answer = .ok ()
    | _, .openTruncate _ _, answer => ∃ file, answer = .ok file
    | _, .write _ _, answer => answer = .ok ()
    | _, .rename _ _, answer => answer = .ok ()
    | _, .removeFile _, _ => True
    | _, .read _, _ => True
  next
    | _, .isFile _, found => if found then .stored else .absent
    | _, .createDirAll _, _ => .ready
    | _, .openTruncate _ _, .ok file => .opened file
    | stage, .openTruncate _ _, .error _ => stage
    | .opened file, .write _ _, _ => .written file
    | stage, .write _ _, _ => stage
    | _, .rename _ _, _ => .stored
    | stage, .removeFile _, _ => stage
    | stage, .read _, _ => stage

/-- a call that ended has stored -/
def StoredAs (digest : Digest) (result : Except StoreError Digest) (stage : Stage) : Prop :=
  result = .ok digest ∧ stage = .stored

section program
variable (sha256 : Sha256) (root : Path) (caller : Nat) (bytes : Bytes)

theorem storeBytes_eq : storeBytes sha256 root caller bytes =
    storeAt caller (objectPath root (digestOf sha256 bytes)) (shardPath root (digestOf sha256 bytes))
      (digestOf sha256 bytes) bytes := by
  rw [storeBytes, pathForDigest_digestOf]
  show storeAt caller _ (objectPath root _).dropLast _ _ = _
  rw [objectPath_dropLast]

theorem storeBytes_keeps : (storeBytes sha256 root caller bytes).Keeps
    (storeMonitor root caller (digestOf sha256 bytes) bytes) (StoredAs (digestOf sha256 bytes)) .start := by
  rw [storeBytes_eq]
  refine ⟨rfl, fun found _ => ?_⟩
  cases found with
  | true => exact ⟨rfl, rfl⟩
  | false =>
    refine ⟨rfl, fun made hmade => ?_⟩
    obtain rfl : made = .ok () := hmade
    refine ⟨⟨rfl, rfl⟩, fun opened hopened => ?_⟩
    obtain ⟨file, rfl⟩ := hopened
    refine ⟨⟨rfl, rfl⟩, fun written hwritten => ?_⟩
    obtain rfl : written = .ok () := hwritten
    refine ⟨⟨rfl, rfl⟩, fun renamed hrenamed => ?_⟩
    obtain rfl : renamed = .ok () := hrenamed
    exact ⟨rfl, rfl⟩

theorem storeBytes_atMost : (storeBytes sha256 root caller bytes).AtMost 6 := by
  rw [storeBytes_eq]
  intro found
  cases found with
  | true => trivial
  | false =>
    intro made
    cases made with
    | error => trivial
    | ok _ =>
      intro opened
      cases opened with
      | error => trivial
      | ok =>
        intro written
        cases written with
        | error => trivial
        | ok =>
          intro renamed
          match renamed with
          | .ok () => trivial
          | .error .notFound => trivial
          | .error .other => trivial
          | .error .alreadyExists =>
            intro removed
            match removed with
            | .ok () => trivial
            | .error .notFound => trivial
            | .error .alreadyExists => trivial
            | .error .other => trivial

end program

/-! ## the invariant -/

abbrev StorePool := Pool Nat Disk FileAnswer (Except StoreError Digest)

section runs
variable (sha256 : Sha256) (root : Path) (bytes : Nat → Bytes)

def stores : StorePool := Pool.start .empty fun i => storeBytes sha256 root i (bytes i)

def digestAt (i : Nat) : Digest := digestOf sha256 (bytes i)

def FileQuery.usesTemp : FileQuery → Bool
  | .write _ _ | .rename _ _ => true
  | .isFile _ | .createDirAll _ | .openTruncate _ _ | .removeFile _ | .read _ => false

/-- when a call writes or renames its temporary file, it is the last that opened it -/
def Undisturbed (p : StorePool) (i : Nat) : Prop :=
  match p.prog i with
  | .ret _ => True
  | .call q _ => q.usesTemp = true →
      p.shared.opener (tempPath root (digestAt sha256 bytes i)) = some i

instance (p : StorePool) (i : Nat) : Decidable (Undisturbed sha256 root bytes p i) := by
  unfold Undisturbed
  exact match p.prog i with
    | .ret _ => inferInstanceAs (Decidable True)
    | .call q _ => inferInstanceAs (Decidable (q.usesTemp = true → _ = _))

def Holds (i : Nat) : Stage → Disk → Prop
  | .start, _ => True
  | .absent, _ => True
  | .ready, d => d.files.dirs (shardPath root (digestAt sha256 bytes i)) = true
  | .opened file, d => d.opener (tempPath root (digestAt sha256 bytes i)) = some i →
      d.files.names (tempPath root (digestAt sha256 bytes i)) = some file ∧ d.files.data file = []
  | .written file, d => d.opener (tempPath root (digestAt sha256 bytes i)) = some i →
      d.files.names (tempPath root (digestAt sha256 bytes i)) = some file ∧ d.files.data file = bytes i
  | .stored, d => ∃ file, d.files.names (objectPath root (digestAt sha256 bytes i)) = some file ∧
      d.files.data file = bytes i

def Faithful (d : Disk) : Prop :=
  ∀ digest, digest.all isAsciiHexdigit = true → ∀ file,
    d.files.names (objectPath root digest) = some file →
    ∃ i, digestAt sha256 bytes i = digest ∧ d.files.data file = bytes i

end runs

section steps
variable {sha256 : Sha256} {root : Path} {bytes : Nat → Bytes} {d : Disk} {i j : Nat} {k : Stage}

theorem digestAt_ascii (i : Nat) : (digestAt sha256 bytes i).all isAsciiHexdigit = true :=
  hexEncode_ascii _

theorem temp_ne_object (i j : Nat) :
    tempPath root (digestAt sha256 bytes i) ≠ objectPath root (digestAt sha256 bytes j) :=
  tempPath_ne_objectPath (digestAt_ascii j)

theorem Holds.createDirAll (h : Holds sha256 root bytes i k d) (path : Path) :
    Holds sha256 root bytes i k { d with files := d.files.createDirAll path } := by
  cases k with
  | ready =>
    show (d.files.dirs _ || _) = true
    rw [show d.files.dirs _ = true from h]
    rfl
  | start | absent => trivial
  | opened | written | stored => exact h

theorem Holds.opened (h : Holds sha256 root bytes i k d) (hne : j ≠ i) {r : Nat × Files UInt8}
    (hr : d.files.openTruncate (tempPath root (digestAt sha256 bytes j)) = .ok r) :
    Holds sha256 root bytes i k (d.opened j (tempPath root (digestAt sha256 bytes j)) r.2) := by
  obtain ⟨_, _, hdirs, hnames, hdata⟩ := Files.openTruncate_spec hr
  -- the opener of a temporary file is still `i` only if `j` opened another one
  have hother : ∀ {p : Path},
      (d.opened j (tempPath root (digestAt sha256 bytes j)) r.2).opener p = some i →
      p ≠ tempPath root (digestAt sha256 bytes j) ∧ d.opener p = some i := by
    intro p hp
    have hp : Function.update d.opener (tempPath root (digestAt sha256 bytes j)) (some j) p = some i := hp
    by_cases hpt : p = tempPath root (digestAt sha256 bytes j)
    · rw [hpt, Function.update_self] at hp
      exact absurd (Option.some.inj hp) hne
    · rw [Function.update_of_ne hpt] at hp
      exact ⟨hpt, hp⟩
  cases k with
  | start | absent => trivial
  | ready => exact (congrFun hdirs _).trans h
  | opened =>
    intro hop
    obtain ⟨hpt, hop⟩ := hother hop
    obtain ⟨hn, hd⟩ := h hop
    exact ⟨(hnames _ hpt).trans hn, (hdata _ _ hpt hn).trans hd⟩
  | written =>
    intro hop
    obtain ⟨hpt, hop⟩ := hother hop
    obtain ⟨hn, hd⟩ := h hop
    exact ⟨(hnames _ hpt).trans hn, (hdata _ _ hpt hn).trans hd⟩
  | stored =>
    obtain ⟨file, hn, hd⟩ := h
    have hpt : objectPath root (digestAt sha256 bytes i) ≠ tempPath root (digestAt sha256 bytes j) :=
      (temp_ne_object j i).symm
    exact ⟨file, (hnames _ hpt).trans hn, (hdata _ _ hpt hn).trans hd⟩

/-- two calls that both opened their temporary file last have different ones -/
theorem temp_ne_temp (hne : j ≠ i) (hi : d.opener (tempPath root (digestAt sha256 bytes i)) = some i)
    (hj : d.opener (tempPath root (digestAt sha256 bytes j)) = some j) :
    tempPath root (digestAt sha256 bytes i) ≠ tempPath root (digestAt sha256 bytes j) := by
  intro heq
  rw [heq, hj] at hi
  exact hne (Option.some.inj hi)

theorem Holds.write (h : Holds sha256 root bytes i k d) (hne : j ≠ i)
    (hj : d.opener (tempPath root (digestAt sha256 bytes j)) = some j) {file : Nat}
    (hfile : d.files.names (tempPath root (digestAt sha256 bytes j)) = some file) (b : Bytes) :
    Holds sha256 root bytes i k { d with files := d.files.write file b } := by
  have hdata : ∀ p m, p ≠ tempPath root (digestAt sha256 bytes j) → d.files.names p = some m →
      (d.files.write file b).data m = d.files.data m := by
    intro p m hp hm
    refine Files.write_data_of_ne fun hmf => hp ?_
    exact d.files.named_once _ _ file (hmf ▸ hm) hfile
  cases k with
  | start | absent => trivial
  | ready => exact h
  | opened =>
    intro hop
    obtain ⟨hn, hd⟩ := h hop
    exact ⟨hn, (hdata _ _ (temp_ne_temp hne hop hj) hn).trans hd⟩
  | written =>
    intro hop
    obtain ⟨hn, hd⟩ := h hop
    exact ⟨hn, (hdata _ _ (temp_ne_temp hne hop hj) hn).trans hd⟩
  | stored =>
    obtain ⟨m, hn, hd⟩ := h
    exact ⟨m, hn, (hdata _ _ (temp_ne_object j i).symm hn).trans hd⟩

/-- the temporary file of `j` was put in place -/
structure Installed (sha256 : Sha256) (root : Path) (bytes : Nat → Bytes) (j file : Nat) (d : Disk)
    (files : Files UInt8) : Prop where
  target : files.names (objectPath root (digestAt sha256 bytes j)) = some file
  data : files.data = d.files.data
  dirs : files.dirs = d.files.dirs
  others : ∀ p, p ≠ tempPath root (digestAt sha256 bytes j) →
    p ≠ objectPath root (digestAt sha256 bytes j) → files.names p = d.files.names p

theorem Holds.renamed (hsame : ∀ i j, digestAt sha256 bytes i = digestAt sha256 bytes j →
      bytes i = bytes j) (h : Holds sha256 root bytes i k d) (hne : j ≠ i)
    (hj : d.opener (tempPath root (digestAt sha256 bytes j)) = some j) {file : Nat}
    {files : Files UInt8} (hg : Installed sha256 root bytes j file d files)
    (hfile : d.files.data file = bytes j) : Holds sha256 root bytes i k { d with files } := by
  cases k with
  | start | absent => trivial
  | ready => exact (congrFun hg.dirs _).trans h
  | opened m =>
    intro hop
    obtain ⟨hn, hd⟩ := h hop
    exact ⟨(hg.others _ (temp_ne_temp hne hop hj) (temp_ne_object i j)).trans hn,
      (congrFun hg.data m).trans hd⟩
  | written m =>
    intro hop
    obtain ⟨hn, hd⟩ := h hop
    exact ⟨(hg.others _ (temp_ne_temp hne hop hj) (temp_ne_object i j)).trans hn,
      (congrFun hg.data m).trans hd⟩
  | stored =>
    by_cases hdig : digestAt sha256 bytes i = digestAt sha256 bytes j
    · -- the file of `i` is replaced by one with the same content
      refine ⟨file, hdig ▸ hg.target, ?_⟩
      rw [hsame i j hdig]
      exact (congrFun hg.data file).trans hfile
    · obtain ⟨m, hn, hd⟩ := h
      have hobject : objectPath root (digestAt sha256 bytes i) ≠
          objectPath root (digestAt sha256 bytes j) := fun heq => hdig (objectPath_inj heq)
      exact ⟨m, (hg.others _ (temp_ne_object j i).symm hobject).trans hn,
        (congrFun hg.data m).trans hd⟩

theorem Faithful.opened (h : Faithful sha256 root bytes d) {r : Nat × Files UInt8}
    (hr : d.files.openTruncate (tempPath root (digestAt sha256 bytes i)) = .ok r) :
    Faithful sha256 root bytes (d.opened i (tempPath root (digestAt sha256 bytes i)) r.2) := by
  obtain ⟨_, _, _, hnames, hdata⟩ := Files.openTruncate_spec hr
  intro digest hdigest file hfile
  have hpt : objectPath root digest ≠ tempPath root (digestAt sha256 bytes i) :=
    (tempPath_ne_objectPath hdigest).symm
  have hold : d.files.names (objectPath root digest) = some file := (hnames _ hpt).symm.trans hfile
  obtain ⟨j, hj, hd⟩ := h digest hdigest file hold
  exact ⟨j, hj, (hdata _ _ hpt hold).trans hd⟩

theorem Faithful.write (h : Faithful sha256 root bytes d) {file : Nat}
    (hfile : d.files.names (tempPath root (digestAt sha256 bytes i)) = some file) (b : Bytes) :
    Faithful sha256 root bytes { d with files := d.files.write file b } := by
  intro digest hdigest m hm
  obtain ⟨j, hj, hd⟩ := h digest hdigest m hm
  refine ⟨j, hj, (Files.write_data_of_ne fun hmf => ?_).trans hd⟩
  exact tempPath_ne_objectPath hdigest (d.files.named_once _ _ file hfile (hmf ▸ hm))

theorem Faithful.renamed (h : Faithful sha256 root bytes d) {file : Nat} {files : Files UInt8}
    (hg : Installed sha256 root bytes i file d files) (hfile : d.files.data file = bytes i) :
    Faithful sha256 root bytes { d with files } := by
  intro digest hdigest m hm
  by_cases hdig : digest = digestAt sha256 bytes i
  · subst hdig
    obtain rfl : file = m := Option.some.inj (hg.target.symm.trans hm)
    exact ⟨i, rfl, (congrFun hg.data file).trans hfile⟩
  · have hobject : objectPath root digest ≠ objectPath root (digestAt sha256 bytes i) :=
      fun heq => hdig (objectPath_inj heq)
    have hold := (hg.others _ (tempPath_ne_objectPath hdigest).symm hobject).symm.trans hm
    obtain ⟨j, hj, hd⟩ := h digest hdigest m hold
    exact ⟨j, hj, (congrFun hg.data m).trans hd⟩

/-! ## one step -/

theorem permits_cases {caller : Nat} {digest : Digest} {b : Bytes} {q : FileQuery}
    (h : (storeMonitor root caller digest b).permits k q) :
    (k = .start ∧ q = .isFile (objectPath root digest)) ∨
    (k = .absent ∧ q = .createDirAll (shardPath root digest)) ∨
    (k = .ready ∧ q = .openTruncate caller (tempPath root digest)) ∨
    (∃ file, k = .opened file ∧ q = .write file b) ∨
    (∃ file, k = .written file ∧ q = .rename (tempPath root digest) (objectPath root digest)) := by
  unfold storeMonitor at h
  dsimp only at h
  split at h
  · exact .inl ⟨rfl, congrArg _ h⟩
  · exact .inr (.inl ⟨rfl, congrArg _ h⟩)
  · exact .inr (.inr (.inl ⟨rfl, by rw [h.1, h.2]⟩))
  · exact .inr (.inr (.inr (.inl ⟨_, rfl, by rw [h.1, h.2]⟩)))
  · exact .inr (.inr (.inr (.inr ⟨_, rfl, by rw [h.1, h.2]⟩)))
  · exact h.elim

/-- what a step of `i` leaves -/
structure Steps (sha256 : Sha256) (root : Path) (bytes : Nat → Bytes) (i : Nat) (k : Stage) (d : Disk)
    (q : FileQuery) : Prop where
  expected : (storeMonitor root i (digestAt sha256 bytes i) (bytes i)).expects k q (d.serve q).1
  own : Holds sha256 root bytes i
    ((storeMonitor root i (digestAt sha256 bytes i) (bytes i)).next k q (d.serve q).1) (d.serve q).2
  others : ∀ j, j ≠ i → ∀ k', Holds sha256 root bytes j k' d → Holds sha256 root bytes j k' (d.serve q).2
  faithful : Faithful sha256 root bytes (d.serve q).2

section
variable (hsame : ∀ i j, digestAt sha256 bytes i = digestAt sha256 bytes j → bytes i = bytes j)
  (hf : Faithful sha256 root bytes d)
include hf

include hsame in
theorem steps_isFile :
    Steps sha256 root bytes i .start d (.isFile (objectPath root (digestAt sha256 bytes i))) where
  expected := trivial
  own := by
    show Holds sha256 root bytes i (if d.files.isFile _ then .stored else .absent) d
    split
    · rename_i hfile
      obtain ⟨file, hn⟩ := Option.isSome_iff_exists.mp hfile
      obtain ⟨j, hj, hd⟩ := hf _ (digestAt_ascii i) file hn
      exact ⟨file, hn, hd.trans (hsame j i hj)⟩
    · trivial
  others _ _ _ h := h
  faithful := hf

theorem steps_createDirAll :
    Steps sha256 root bytes i .absent d (.createDirAll (shardPath root (digestAt sha256 bytes i))) where
  expected := rfl
  own := by
    show (d.files.dirs _ || List.isPrefixOf _ _) = true
    simp
  others _ _ _ h := h.createDirAll _
  faithful := hf

theorem steps_openTruncate (h : Holds sha256 root bytes i .ready d) :
    Steps sha256 root bytes i .ready d
      (.openTruncate i (tempPath root (digestAt sha256 bytes i))) := by
  have hdir : d.files.dirs (tempPath root (digestAt sha256 bytes i)).dropLast = true := by
    rw [tempPath, List.dropLast_concat]
    exact h
  obtain ⟨r, hr⟩ := Files.openTruncate_ok hdir
  have hserve : d.serve (.openTruncate i (tempPath root (digestAt sha256 bytes i))) =
      (.ok r.1, d.opened i (tempPath root (digestAt sha256 bytes i)) r.2) := by
    rw [Disk.serve, hr]
    rfl
  obtain ⟨hname, hdata, _⟩ := Files.openTruncate_spec hr
  constructor
  · rw [hserve]
    exact ⟨r.1, rfl⟩
  · rw [hserve]
    exact fun _ => ⟨hname, hdata⟩
  · intro _ hj _ hk
    rw [hserve]
    exact hk.opened hj.symm hr
  · rw [hserve]
    exact hf.opened hr

theorem steps_write {file : Nat} (h : Holds sha256 root bytes i (.opened file) d)
    (hop : d.opener (tempPath root (digestAt sha256 bytes i)) = some i) :
    Steps sha256 root bytes i (.opened file) d (.write file (bytes i)) := by
  obtain ⟨hname, hdata⟩ := h hop
  exact { expected := rfl
          own := fun _ => ⟨hname, Files.write_data_self hdata⟩
          others := fun j hj k' hk => hk.write hj.symm hop hname _
          faithful := hf.write hname _ }

include hsame in
theorem steps_rename {file : Nat} (h : Holds sha256 root bytes i (.written file) d)
    (hop : d.opener (tempPath root (digestAt sha256 bytes i)) = some i) :
    Steps sha256 root bytes i (.written file) d
      (.rename (tempPath root (digestAt sha256 bytes i)) (objectPath root (digestAt sha256 bytes i))) := by
  obtain ⟨hname, hdata⟩ := h hop
  have hne : tempPath root (digestAt sha256 bytes i) ≠ objectPath root (digestAt sha256 bytes i) :=
    temp_ne_object i i
  obtain ⟨files, hren, htarget, _, hfdata, hdirs, hothers⟩ := Files.rename_spec hne hname
  have hg : Installed sha256 root bytes i file d files := ⟨htarget, hfdata, hdirs, hothers⟩
  have hserve : d.serve (.rename (tempPath root (digestAt sha256 bytes i))
      (objectPath root (digestAt sha256 bytes i))) = (.ok (), { d with files }) := by
    rw [Disk.serve, hren]
    rfl
  constructor
  · rw [hserve]
    rfl
  · rw [hserve]
    exact ⟨file, htarget, (congrFun hfdata file).trans hdata⟩
  · intro _ hj _ hk
    rw [hserve]
    exact hk.renamed hsame hj.symm hop hg hdata
  · rw [hserve]
    exact hf.renamed hg hdata

include hsame in
theorem steps_of_permits {q : FileQuery} (h : Holds sha256 root bytes i k d)
    (hq : (storeMonitor root i (digestAt sha256 bytes i) (bytes i)).permits k q)
    (hop : q.usesTemp = true → d.opener (tempPath root (digestAt sha256 bytes i)) = some i) :
    Steps sha256 root bytes i k d q := by
  rcases permits_cases hq with ⟨rfl, rfl⟩ | ⟨rfl, rfl⟩ | ⟨rfl, rfl⟩ | ⟨file, rfl, rfl⟩ | ⟨file, rfl, rfl⟩
  · exact steps_isFile hsame hf
  · exact steps_createDirAll hf
  · exact steps_openTruncate hf h
  · exact steps_write hf h (hop rfl)
  · exact steps_rename hsame hf h (hop rfl)

end

end steps

/-! ## every interleaving -/

section result
variable (sha256 : Sha256) (root : Path) (bytes : Nat → Bytes)

def storeMonitors (i : Nat) : Monitor FileAnswer Stage :=
  storeMonitor root i (digestAt sha256 bytes i) (bytes i)

/-- every call is as far as the disk says, and the disk is faithful -/
structure Consistent (p : StorePool) : Prop where
  follows : p.Follows (storeMonitors sha256 root bytes) .start
    (fun i => StoredAs (digestAt sha256 bytes i)) (Holds sha256 root bytes)
  faithful : Faithful sha256 root bytes p.shared

theorem Consistent.start : Consistent sha256 root bytes (stores sha256 root bytes) where
  follows := Pool.Follows.start (fun i => storeBytes_keeps sha256 root i (bytes i)) fun _ => trivial
  faithful _ _ _ h := by cases h

variable {sha256 root bytes}

theorem Consistent.step
    (hsame : ∀ i j, digestAt sha256 bytes i = digestAt sha256 bytes j → bytes i = bytes j)
    {p : StorePool} (h : Consistent sha256 root bytes p) {i : Nat}
    (hu : Undisturbed sha256 root bytes p i) : Consistent sha256 root bytes (p.step Disk.serve i) := by
  have hsteps : ∀ q, p.Asks i q →
      (storeMonitors sha256 root bytes i).permits (p.known (storeMonitors sha256 root bytes) .start i) q →
      Steps sha256 root bytes i (p.known (storeMonitors sha256 root bytes) .start i) p.shared q := by
    intro q hq hpermits
    refine steps_of_permits hsame h.faithful (h.follows i).2 hpermits ?_
    obtain ⟨f, hf⟩ := hq
    rw [Undisturbed, hf] at hu
    exact hu
  constructor
  · refine h.follows.step (fun q hq hp => ?_) (fun q hq hp j hj => ?_)
    · exact ⟨(hsteps q hq hp).expected, (hsteps q hq hp).own⟩
    · exact (hsteps q hq hp).others j hj _ (h.follows j).2
  · cases hp : p.prog i with
    | ret a =>
      rw [Pool.step_ended ⟨a, hp⟩]
      exact h.faithful
    | call q f =>
      have hkeeps := (h.follows i).1
      rw [hp] at hkeeps
      rw [Pool.step_call hp]
      exact (hsteps q ⟨f, hp⟩ hkeeps.1).faithful

variable (sha256 root bytes)

/-- what a content-addressed store is for -/
structure Stored (schedule : List Nat) (p : StorePool) : Prop where
  visible : ∀ digest path file, pathForDigest root digest = .ok path →
    p.shared.files.names path = some file → digestOf sha256 (p.shared.files.data file) = digest
  ends : ∀ i, 6 ≤ schedule.count i → p.Ended i
  returns : ∀ i result, p.prog i = .ret result → result = .ok (digestOf sha256 (bytes i))
  loads : ∀ i digest, p.prog i = .ret (.ok digest) →
    ((loadBytes sha256 root digest).run Disk.serve p.shared).1 = .ok (bytes i)

variable {sha256 root bytes}

theorem loadBytes_of_stored {d : Disk} {i : Nat} (h : Holds sha256 root bytes i .stored d) :
    ((loadBytes sha256 root (digestAt sha256 bytes i)).run Disk.serve d).1 = .ok (bytes i) := by
  obtain ⟨file, hn, hd⟩ := h
  have hread : d.files.read (objectPath root (digestOf sha256 (bytes i))) = .ok (bytes i) := by
    rw [Files.read, show d.files.names (objectPath root (digestOf sha256 (bytes i))) = some file from hn]
    exact congrArg _ hd
  have hmatches : ¬ digestOf sha256 (bytes i) ≠ digestOf sha256 (bytes i) := not_not.mpr rfl
  show ((loadBytes sha256 root (digestOf sha256 (bytes i))).run Disk.serve d).1 = _
  simp only [loadBytes, pathForDigest_digestOf, Calls.run, Disk.serve, hread, if_neg hmatches]

variable (sha256 root bytes)

/-- In every interleaving of undisturbed steps the store does what it is for. -/
theorem stores_undisturbed
    (hsame : ∀ i j, digestOf sha256 (bytes i) = digestOf sha256 (bytes j) → bytes i = bytes j)
    (schedule : List Nat)
    (hu : Pool.Along Disk.serve (Undisturbed sha256 root bytes) (stores sha256 root bytes) schedule) :
    Stored sha256 root bytes schedule ((stores sha256 root bytes).run Disk.serve schedule) := by
  have hstep : ∀ p i, Consistent sha256 root bytes p → Undisturbed sha256 root bytes p i →
      Consistent sha256 root bytes (p.step Disk.serve i) := fun _ _ hp hi => hp.step hsame hi
  have h := Pool.run_invariant hstep (Consistent.start sha256 root bytes) hu
  constructor
  · intro digest _ file hpath hfile
    obtain ⟨hdigest, rfl⟩ := pathForDigest_ok hpath
    obtain ⟨i, hi, hd⟩ := h.faithful digest hdigest file hfile
    rw [hd]
    exact hi
  · intro i hi
    exact Pool.ended_of_count (storeBytes_atMost sha256 root i (bytes i)) hi
  · intro _ _ hresult
    exact (h.follows.returned hresult).1.1
  · intro _ _ hresult
    obtain ⟨⟨hdigest, hstage⟩, hholds⟩ := h.follows.returned hresult
    rw [hstage] at hholds
    rw [Except.ok.inj hdigest]
    exact loadBytes_of_stored hholds

end result

/-! ## two stores of the same bytes -/

def lengthSha : Sha256 := fun bytes => ⟨List.replicate 32 (UInt8.ofNat bytes.length), List.length_replicate ..⟩

/-- call 0 stops after it opened the temporary file, call 1 stores, call 2 finds the file -/
theorem stores_undisturbed_stopped :
    Pool.Along Disk.serve (Undisturbed lengthSha [] fun _ => [7]) (stores lengthSha [] fun _ => [7])
      [0, 0, 0, 1, 1, 1, 1, 1, 2] ∧
    Stored lengthSha [] (fun _ => [7]) [0, 0, 0, 1, 1, 1, 1, 1, 2]
      ((stores lengthSha [] fun _ => [7]).run Disk.serve [0, 0, 0, 1, 1, 1, 1, 1, 2]) := by
  have hu : Pool.Along Disk.serve (Undisturbed lengthSha [] fun _ => [7])
      (stores lengthSha [] fun _ => [7]) [0, 0, 0, 1, 1, 1, 1, 1, 2] := by decide +kernel
  exact ⟨hu, stores_undisturbed lengthSha [] (fun _ => [7]) (fun _ _ _ => rfl) _ hu⟩

/-- call 1 truncates the temporary file between the write and the rename of call 0: the empty file is put in
place, call 0 returns, its bytes cannot be loaded, and call 1 fails -/
theorem truncated_file_installed :
    ((stores lengthSha [] fun _ => [7]).run Disk.serve [0, 0, 0, 0, 1, 1, 1, 0]).prog 0 =
      .ret (.ok (digestOf lengthSha [7])) ∧
    ((loadBytes lengthSha [] (digestOf lengthSha [7])).run Disk.serve
      ((stores lengthSha [] fun _ => [7]).run Disk.serve [0, 0, 0, 0, 1, 1, 1, 0]).shared).1 =
      .error (.digestMismatch (digestOf lengthSha [7]) (digestOf lengthSha [])) ∧
    ((stores lengthSha [] fun _ => [7]).run Disk.serve [0, 0, 0, 0, 1, 1, 1, 0, 1, 1]).prog 1 =
      .ret (.error (.io .notFound)) ∧
    ¬ Stored lengthSha [] (fun _ => [7]) [0, 0, 0, 0, 1, 1, 1, 0]
      ((stores lengthSha [] fun _ => [7]).run Disk.serve [0, 0, 0, 0, 1, 1, 1, 0]) := by
  have hreturned : ((stores lengthSha [] fun _ => [7]).run Disk.serve [0, 0, 0, 0, 1, 1, 1, 0]).prog 0 =
      .ret (.ok (digestOf lengthSha [7])) := rfl
  have hload : ((loadBytes lengthSha [] (digestOf lengthSha [7])).run Disk.serve
      ((stores lengthSha [] fun _ => [7]).run Disk.serve [0, 0, 0, 0, 1, 1, 1, 0]).shared).1 =
      .error (.digestMismatch (digestOf lengthSha [7]) (digestOf lengthSha [])) := by decide +kernel
  refine ⟨hreturned, hload, rfl, fun h => ?_⟩
  have hloads := h.loads 0 _ hreturned
  cases hloads

end Daemon

import Orchestraitor.Base.Files
import Orchestraitor.Worker.Tools

/-!
# Path confinement of the file tools (`paths.rs`)

A path of the model is normalised by its text, and every component of it that exists under the root is
checked not to be a symlink.  What the tools then open is resolved by the kernel (`walk`), link by link.

* `look path` answers for one name in a directory, from any tree of files; the kernel follows at most
  `n` components and links.
* The root is canonical: it is walked to itself.
-/

namespace Worker
open Base

/-! ## paths -/

/-- `std::path::Component`, without the prefixes of other platforms -/
inductive Component where
  | rootDir | curDir | parentDir
  | normal (name : List Char)
  deriving DecidableEq

def componentOf : List Char → Option Component
  | [] | ['.'] => none
  | ['.', '.'] => some .parentDir
  | name => some (.normal name)

/-- `Path::components`: a `.` is seen at the start only -/
def components (path : List Char) : List Component :=
  (if path.head? = some '/' then [.rootDir] else []) ++
    (if (path.splitOn '/').head? = some ['.'] then [.curDir] else []) ++
    (path.splitOn '/').filterMap componentOf

/-- the body of the loop -/
def normalizeComponent (parts : Path) : Component → Except PathRejection Path
  | .curDir => .ok parts
  | .normal part => .ok (parts ++ [part])
  | .parentDir => if parts = [] then .error .escapesWorktree else .ok parts.dropLast
  | .rootDir => .error .absolute

def normalizeRelative (relative : List Char) : Except PathRejection Path :=
  if relative = [] then .error .empty
  else do
    let parts ← (components relative).foldlM normalizeComponent []
    if parts = [] then .error .empty else .ok parts

/-! ## the kernel -/

inductive Node where
  | dir | file
  | link (target : List Component)

inductive Errno where
  | notFound | other

section
variable (look : Path → Except Errno Node)

/-- the file that the components lead to from the directory `dir`, with every link followed -/
def walk : Nat → Path → List Component → Except Errno Path
  | _, dir, [] => .ok dir
  | 0, _, _ :: _ => .error .other
  | n + 1, dir, .curDir :: rest => walk n dir rest
  | n + 1, dir, .parentDir :: rest => walk n dir.dropLast rest
  | n + 1, _, .rootDir :: rest => walk n [] rest
  | n + 1, dir, .normal name :: rest => match look (dir ++ [name]) with
    | .error e => .error e
    | .ok (.link target) => walk n dir (target ++ rest)
    | .ok _ => walk n (dir ++ [name]) rest

/-- `fs::symlink_metadata`: the last component is not followed -/
def symlinkMetadata (n : Nat) (root parts : Path) (part : List Char) : Except Errno Node := do
  let dir ← walk look n root (parts.map .normal)
  look (dir ++ [part])

/-! ## the check -/

def refuseSymlinkComponents (n : Nat) (root : Path) : Path → Path → Except PathRejection Unit
  | _, [] => .ok ()
  | current, part :: rest => match symlinkMetadata look n root current part with
    | .ok (.link _) => .error .symlinkComponent
    | .ok _ => refuseSymlinkComponents n root (current ++ [part]) rest
    | .error .notFound => .ok ()
    | .error .other => .error .inaccessible

def resolveConfined (n : Nat) (root : Path) (relative : List Char) : Except PathRejection Path := do
  let parts ← normalizeRelative relative
  refuseSymlinkComponents look n root [] parts
  return root ++ parts

end

/-! ## walks -/

section
variable {look : Path → Except Errno Node} {dir p root : Path} {cs ds : List Component} {m n : Nat}

theorem walk_append (h : walk look m dir (cs ++ ds) = .ok p) :
    ∃ q k, walk look m dir cs = .ok q ∧ walk look k q ds = .ok p := by
  induction m generalizing dir cs with
  | zero =>
    cases cs with
    | nil => exact ⟨dir, 0, rfl, h⟩
    | cons => exact absurd h (by simp [walk])
  | succ m ih =>
    cases cs with
    | nil => exact ⟨dir, m + 1, by simp [walk], h⟩
    | cons c cs =>
      cases c with
      | rootDir | curDir | parentDir => exact ih h
      | normal name =>
        simp only [List.cons_append, walk] at h ⊢
        cases hlook : look (dir ++ [name]) with
        | error => simp [hlook] at h
        | ok node =>
          cases node with
          | dir | file =>
            simp only [hlook] at h ⊢
            exact ih h
          | link target =>
            simp only [hlook, ← List.append_assoc] at h ⊢
            exact ih h

/-- a walk that succeeds comes to the same end with any number of steps, or is broken off -/
theorem walk_budget (h : walk look m dir cs = .ok p) (n : Nat) :
    walk look n dir cs = .ok p ∨ walk look n dir cs = .error .other := by
  induction n generalizing m dir cs with
  | zero =>
    cases cs with
    | nil => exact .inl (by simpa [walk] using h)
    | cons => exact .inr rfl
  | succ n ih =>
    cases cs with
    | nil => exact .inl (by simpa [walk] using h)
    | cons c cs =>
      obtain _ | m := m
      · exact absurd h (by simp [walk])
      cases c with
      | rootDir | curDir | parentDir => exact ih h
      | normal name =>
        simp only [walk] at h ⊢
        cases hlook : look (dir ++ [name]) with
        | error => simp [hlook] at h
        | ok node => cases node <;> (simp only [hlook] at h ⊢; exact ih h)

/-- every walk along a start of `parts` ends there, below the root -/
def Straight (look : Path → Except Errno Node) (root parts : Path) : Prop :=
  ∀ start rest, parts = start ++ rest → ∀ m p, walk look m root (start.map .normal) = .ok p →
    p = root ++ start

theorem straight_nil : Straight look root [] := by
  intro start rest h m p hwalk
  obtain ⟨rfl, rfl⟩ := List.append_eq_nil_iff.mp h.symm
  simpa [walk] using hwalk.symm

variable {current rest : Path} {part : List Char}

theorem Straight.append (h : Straight look root current)
    (hrest : ∀ more after, rest = more ++ after → ∀ m p,
      walk look m root ((current ++ part :: more).map .normal) = .ok p →
        p = root ++ (current ++ part :: more)) : Straight look root (current ++ part :: rest) := by
  intro start after hsplit
  rcases List.append_eq_append_iff.mp hsplit with ⟨more, rfl, hmore⟩ | ⟨between, hcurrent, -⟩
  · cases more with
    | nil =>
      rw [List.append_nil]
      exact h current [] (List.append_nil _).symm
    | cons =>
      obtain ⟨rfl, htail⟩ := List.cons.inj (hmore.trans (List.cons_append ..))
      exact hrest _ after htail
  · exact h start between hcurrent

/-- a walk through `part` finds it in the directory that the components before it name -/
theorem Straight.through (h : Straight look root current) {more : Path}
    (hwalk : walk look m root ((current ++ part :: more).map .normal) = .ok p) :
    walk look m root (current.map .normal) = .ok (root ++ current) ∧
      ∃ node, look (root ++ current ++ [part]) = .ok node ∧
        ((∀ target, node ≠ .link target) → more = [] → p = root ++ (current ++ [part])) := by
  rw [List.map_append] at hwalk
  obtain ⟨q, k, hq, hp⟩ := walk_append hwalk
  obtain rfl := h current [] (List.append_nil _).symm m q hq
  refine ⟨hq, ?_⟩
  cases k with
  | zero => exact absurd hp (by simp [walk])
  | succ k =>
    simp only [List.map_cons, walk] at hp
    cases hlook : look (root ++ current ++ [part]) with
    | error =>
      rw [hlook] at hp
      exact absurd hp (by simp)
    | ok node =>
      refine ⟨node, rfl, fun hlink hmore => ?_⟩
      subst hmore
      rw [hlook] at hp
      cases node with
      | link target => exact absurd rfl (hlink target)
      | dir | file => simpa [walk] using hp.symm

theorem refuse_straight (h : Straight look root current)
    (hok : refuseSymlinkComponents look n root current rest = .ok ()) :
    Straight look root (current ++ rest) := by
  induction rest generalizing current with
  | nil => rwa [List.append_nil]
  | cons part rest ih =>
    unfold refuseSymlinkComponents at hok
    -- what the check was told is what every walk that gets here finds
    have hsame : ∀ {m p more}, walk look m root ((current ++ part :: more).map .normal) = .ok p →
        symlinkMetadata look n root current part = look (root ++ current ++ [part]) ∨
          symlinkMetadata look n root current part = .error .other := by
      intro m p more hwalk
      unfold symlinkMetadata
      rcases walk_budget (h.through hwalk).1 n with hn | hn
      · exact .inl (by rw [hn]; rfl)
      · exact .inr (by rw [hn]; rfl)
    cases hmeta : symlinkMetadata look n root current part with
    | ok node =>
      cases node with
      | link => simp [hmeta] at hok
      | dir | file =>
        simp only [hmeta] at hok
        have hpart : Straight look root (current ++ [part]) := by
          apply h.append
          intro more after hmore m p hwalk
          obtain ⟨rfl, rfl⟩ := List.append_eq_nil_iff.mp hmore.symm
          obtain ⟨_, node, hnode, hend⟩ := h.through hwalk
          have hfound := (hsame hwalk).resolve_right (by simp [hmeta])
          rw [hmeta, hnode] at hfound
          obtain rfl := Except.ok.inj hfound
          exact hend nofun rfl
        rw [List.append_cons]
        exact ih hpart hok
    | error e =>
      cases e with
      | other => simp [hmeta] at hok
      | notFound =>
        -- nothing is found beyond a component that is missing
        apply h.append
        intro more after _ m p hwalk
        obtain ⟨_, node, hnode, _⟩ := h.through hwalk
        have hmissing := (hsame hwalk).resolve_right (by simp [hmeta])
        rw [hmeta, hnode] at hmissing
        exact absurd hmissing (by simp)

theorem walk_normalize (hlinks : ∀ q target, look q ≠ .ok (.link target)) {parts parts' : Path}
    (hfold : cs.foldlM normalizeComponent parts = .ok parts')
    (hwalk : walk look m (root ++ parts) cs = .ok p) : p = root ++ parts' := by
  induction cs generalizing parts m with
  | nil =>
    obtain rfl := Except.ok.inj hfold
    simpa [walk] using hwalk.symm
  | cons c cs ih =>
    obtain ⟨next, hnext, hfold⟩ := bind_ok hfold
    obtain _ | m := m
    · exact absurd hwalk (by simp [walk])
    cases c with
    | rootDir => exact absurd hnext (by simp [normalizeComponent])
    | curDir =>
      obtain rfl := Except.ok.inj hnext
      exact ih hfold hwalk
    | parentDir =>
      simp only [normalizeComponent] at hnext
      split_ifs at hnext with hne
      obtain rfl := Except.ok.inj hnext
      rw [walk, List.dropLast_append_of_ne_nil hne] at hwalk
      exact ih hfold hwalk
    | normal name =>
      obtain rfl := Except.ok.inj hnext
      rw [walk, List.append_assoc] at hwalk
      cases hlook : look (root ++ (parts ++ [name])) with
      | error => simp [hlook] at hwalk
      | ok node =>
        cases node with
        | link target => exact absurd hlook (hlinks _ target)
        | dir | file =>
          simp only [hlook] at hwalk
          exact ih hfold hwalk

end

/-- **Confinement.**  An accepted path is the root joined with the normal form of the given one.  In any
tree of files, whatever a walk reaches along it lies at that very place below the root, so no link
leads out of the worktree; and without links it is where the given path leads. -/
theorem resolve_confined_stays (look : Path → Except Errno Node) (n : Nat) (root : Path)
    (relative : List Char) (path : Path) (h : resolveConfined look n root relative = .ok path) :
    ∃ parts, normalizeRelative relative = .ok parts ∧ path = root ++ parts ∧
      Straight look root parts ∧ ((∀ q target, look q ≠ .ok (.link target)) → ∀ m p,
        walk look m root (components relative) = .ok p → p = path) := by
  obtain ⟨parts, hparts, h⟩ := bind_ok h
  obtain ⟨_, hok, h⟩ := bind_ok h
  obtain rfl := Except.ok.inj h
  refine ⟨parts, hparts, rfl, refuse_straight straight_nil hok, fun hlinks m p hwalk => ?_⟩
  unfold normalizeRelative at hparts
  split_ifs at hparts
  obtain ⟨parts', hfold, hparts⟩ := bind_ok hparts
  split_ifs at hparts
  obtain rfl := Except.ok.inj hparts
  exact walk_normalize hlinks hfold (by rwa [List.append_nil])

/-- a directory with a file and a link that leads out of the root -/
def plantedLink : Path → Except Errno Node
  | [['r']] | [['r'], ['a']] => .ok .dir
  | [['r'], ['a'], ['f']] => .ok .file
  | [['r'], ['l']] => .ok (.link [.parentDir])
  | _ => .error .notFound

theorem resolve_confined_stays_file :
    resolveConfined plantedLink 9 [['r']] "x/../a/./f".toList = .ok [['r'], ['a'], ['f']] ∧
    ∃ parts, [['r'], ['a'], ['f']] = [['r']] ++ parts ∧ Straight plantedLink [['r']] parts := by
  have hok : resolveConfined plantedLink 9 [['r']] "x/../a/./f".toList =
      .ok [['r'], ['a'], ['f']] := by rfl
  obtain ⟨parts, _, hpath, hstraight, _⟩ := resolve_confined_stays _ _ _ _ _ hok
  exact ⟨hok, parts, hpath, hstraight⟩

end Worker

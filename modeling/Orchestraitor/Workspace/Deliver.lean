import Orchestraitor.Base.CallRules
import Orchestraitor.Base.Scan

/-!
# Delivering a task worktree (`delivery.rs`, `delivery/git.rs`)

`deliver` commits everything in the worktree, fetches the push credential, pushes the branch and opens the
draft pull request.  Each git command, the credential provider and the pull-request transport are calls.
What answers them is a parameter: `Git` is what can be seen of a repository, and `Git.Serves` what is asked
of the answers.
-/

namespace Workspace
open Base

/-! ## values -/

structure GitError where
  operation : String
  exitCode : Option Int
  stderr : String
  deriving DecidableEq

inductive CredentialError where
  | unavailable (reason : String)
  | expired (reason : String)
  deriving DecidableEq

inductive DeliveryError where
  | invalidIdentity (reason : String)
  | emptyCommitMessage
  | stage (branch : String) (source : GitError)
  | nothingToCommit (branch : String)
  | commit (branch : String) (source : GitError)
  | credential (source : CredentialError)
  | pushRejected (branch : String)
  | pushAuthFailed (branch : String)
  | pushFailed (branch : String) (source : GitError)
  | pullRequest (owner repo source : String)
  deriving DecidableEq

def isControl (c : Char) : Bool := c.toNat < 0x20 || (0x7F ≤ c.toNat && c.toNat ≤ 0x9F)

def validateIdentityPart (value : String) (isName : Bool) : Except DeliveryError Unit :=
  if isBlank value then
    .error (.invalidIdentity "name and email must not be empty")
  else if value.toList.any fun c => isControl c || c = '<' || c = '>' then
    .error (.invalidIdentity "name and email must not contain control characters or angle brackets")
  else if isName then .ok ()
  else match value.toList.splitOn '@' with
    | [localPart, domain] =>
      if !localPart.isEmpty && !domain.isEmpty then .ok ()
      else .error (.invalidIdentity "email must contain a single @ with non-empty local and domain parts")
    | _ => .error (.invalidIdentity "email must contain a single @ with non-empty local and domain parts")

structure CommitIdentity where
  name : String
  email : String
  valid_name : validateIdentityPart name true = .ok ()
  valid_email : validateIdentityPart email false = .ok ()

structure TaskWorktree where
  path : String
  branch : String
  deriving DecidableEq

structure DraftPullRequestSpec where
  owner : String
  repo : String
  title : String
  baseBranch : String
  specAnchors : List String
  evidencePaths : List String

structure DeliveryRequest where
  commitMessage : String
  identity : CommitIdentity
  pullRequest : DraftPullRequestSpec

structure NewPullRequest where
  owner : String
  repo : String
  title : String
  headBranch : String
  baseBranch : String
  body : String
  draft : Bool
  credential : String
  deriving DecidableEq

structure PullRequestHandle where
  number : Nat
  url : String
  deriving DecidableEq

structure DeliveryOutcome where
  worktree : TaskWorktree
  commit : String
  pullRequest : PullRequestHandle
  deriving DecidableEq

/-! ## calls -/

inductive Request where
  | status
  | addAll
  | commit (message name email : String)
  | revParse
  | push (branch credential : String)
  | pushCredential
  | createPullRequest (request : NewPullRequest)

@[reducible] def Answer : Request → Type
  | .status | .revParse => Except GitError String
  | .addAll | .commit _ _ _ | .push _ _ => Except GitError Unit
  | .pushCredential => Except CredentialError String
  | .createPullRequest _ => Except String PullRequestHandle

abbrev DeliverM := ExceptT DeliveryError (Calls Answer)

def ask (q : Request) : DeliverM (Answer q) := ExceptT.lift (Calls.ask q)

def orError {ε α : Type} (wrap : ε → DeliveryError) : Except ε α → DeliverM α
  | .ok a => pure a
  | .error e => throw (wrap e)

/-! ## the delivery -/

def hasChanges : DeliverM (Except GitError Bool) := do
  let status ← ask .status
  return status.map fun text => !text.isEmpty

def signedMessage (commitMessage : String) (identity : CommitIdentity) : String :=
  String.ofList (trimEndList commitMessage.toList) ++ "\n\nSigned-off-by: " ++ identity.name ++ " <" ++
    identity.email ++ ">"

def commitChanges (worktree : TaskWorktree) (commitMessage : String) (identity : CommitIdentity) :
    DeliverM String := do
  let staged ← ask .addAll
  orError (.stage worktree.branch) staged
  let committed ← ask (.commit (signedMessage commitMessage identity) identity.name identity.email)
  orError (.commit worktree.branch) committed
  let head ← ask .revParse
  orError (.commit worktree.branch) head

def commitAll (worktree : TaskWorktree) (commitMessage : String) (identity : CommitIdentity) :
    DeliverM String :=
  if isBlank commitMessage then throw .emptyCommitMessage
  else do
    let status ← hasChanges
    let changes ← orError (.stage worktree.branch) status
    if changes then commitChanges worktree commitMessage identity
    else throw (.nothingToCommit worktree.branch)

inductive PushFailure where
  | rejected
  | auth
  | other (source : GitError)

def classifyPushFailure (error : GitError) : PushFailure :=
  let has (text : String) := contains text.toList error.stderr.toList
  if has "non-fast-forward" || has "fetch first" || has "stale info" then .rejected
  else if has "Authentication failed" || has "returned error: 401" || has "returned error: 403" then .auth
  else .other { error with stderr := "" }

def pushError (branch : String) (error : GitError) : DeliveryError :=
  match classifyPushFailure error with
  | .rejected => .pushRejected branch
  | .auth => .pushAuthFailed branch
  | .other source => .pushFailed branch source

def push (worktree : TaskWorktree) (credential : String) : DeliverM Unit := do
  let pushed ← ask (.push worktree.branch credential)
  orError (pushError worktree.branch) pushed

def renderPullRequestBody (spec : DraftPullRequestSpec) : String :=
  "## Spec anchors\n\n" ++ String.join (spec.specAnchors.map fun anchor => "- " ++ anchor ++ "\n") ++
  "\n## Evidence\n\n" ++ String.join (spec.evidencePaths.map fun path => "- `" ++ path ++ "`\n") ++
  "\n---\nOpened as a draft by the Orchestraitor delivery path; review and merge remain human-gated.\n"

def newPullRequest (worktree : TaskWorktree) (spec : DraftPullRequestSpec) (credential : String) :
    NewPullRequest :=
  { owner := spec.owner, repo := spec.repo, title := spec.title, headBranch := worktree.branch
    baseBranch := spec.baseBranch, body := renderPullRequestBody spec, draft := true, credential }

def openDraftPullRequest (worktree : TaskWorktree) (spec : DraftPullRequestSpec) (credential : String) :
    DeliverM PullRequestHandle := do
  let created ← ask (.createPullRequest (newPullRequest worktree spec credential))
  orError (.pullRequest spec.owner spec.repo) created

def publish (worktree : TaskWorktree) (request : DeliveryRequest) (commit : String) :
    DeliverM DeliveryOutcome := do
  let provided ← ask .pushCredential
  let credential ← orError .credential provided
  push worktree credential
  let pullRequest ← openDraftPullRequest worktree request.pullRequest credential
  return { worktree, commit, pullRequest }

def deliver (worktree : TaskWorktree) (request : DeliveryRequest) : DeliverM DeliveryOutcome := do
  let commit ← commitAll worktree request.commitMessage request.identity
  publish worktree request commit

/-! ## git -/

/-- a worktree as git sees it: the files that `add -A` stages (so neither ignored files nor empty
directories), the index, the tree of `HEAD` and the id of its commit -/
structure Local (σ : Type) where
  files : σ
  index : σ
  head : σ
  tip : String
  deriving DecidableEq

/-- what can be seen of a repository `ρ`: the worktree, the commits of the branches on `origin`, and the
pull requests that were opened -/
structure Git (ρ σ : Type) where
  look : ρ → Local σ
  remote : ρ → String → Option String
  pulls : ρ → List NewPullRequest

/-- the calls that go out -/
def Outside : Request → Prop
  | .push _ _ | .pushCredential | .createPullRequest _ => True
  | .status | .addAll | .commit _ _ _ | .revParse => False

section repo
variable {ρ σ : Type}

/-- The local commands do not fail but for a commit of nothing, and do what git says they do to a worktree
on `branch`.  The calls that go out may fail, before or after they took effect. -/
structure Git.Serves (git : Git ρ σ) (branch : String) (answer : ρ → (q : Request) → Answer q × ρ) :
    Prop where
  status : ∀ r, ∃ text r', answer r .status = (.ok text, r') ∧ git.look r' = git.look r ∧
    (text.isEmpty = true ↔
      (git.look r).files = (git.look r).index ∧ (git.look r).index = (git.look r).head)
  addAll : ∀ r, ∃ r', answer r .addAll = (.ok (), r') ∧
    git.look r' = { git.look r with index := (git.look r).files }
  commitNothing : ∀ r message name email, (git.look r).index = (git.look r).head →
    ∃ error r', answer r (.commit message name email) = (.error error, r') ∧ git.look r' = git.look r
  commit : ∀ r message name email, (git.look r).index ≠ (git.look r).head →
    ∃ tip r', answer r (.commit message name email) = (.ok (), r') ∧
      git.look r' = { git.look r with head := (git.look r).index, tip }
  revParse : ∀ r, ∃ r', answer r .revParse = (.ok (git.look r).tip, r') ∧ git.look r' = git.look r
  outside : ∀ r q, Outside q → git.look (answer r q).2 = git.look r
  push : ∀ r credential, (answer r (.push branch credential)).1 = .ok () →
    git.remote (answer r (.push branch credential)).2 branch = some (git.look r).tip
  createPullRequest : ∀ r request,
    git.remote (answer r (.createPullRequest request)).2 = git.remote r ∧
      ∀ handle, (answer r (.createPullRequest request)).1 = .ok handle →
        request ∈ git.pulls (answer r (.createPullRequest request)).2

variable {git : Git ρ σ} {worktree : TaskWorktree} {answer : ρ → (q : Request) → Answer q × ρ}

theorem run_ask_bind {α : Type} (r : ρ) (q : Request) (f : Answer q → DeliverM α) :
    (ask q >>= f).run.run answer r = (f (answer r q).1).run.run answer (answer r q).2 := by
  rfl

/-! ### committing -/

/-- how a commit ends: with `HEAD` at a commit of the files, or in an error with `HEAD` where it was -/
def Commits (git : Git ρ σ) (r : ρ) (res : Except DeliveryError String × ρ) : Prop :=
  (git.look r).files ≠ (git.look r).head ∧ res.1 = .ok (git.look res.2).tip ∧
      (git.look res.2).head = (git.look r).files ∨
    (git.look r).files = (git.look r).head ∧ (∃ e, res.1 = .error e) ∧
      (git.look res.2).head = (git.look r).head

theorem commitChanges_run (h : git.Serves worktree.branch answer) (message : String)
    (identity : CommitIdentity) (r : ρ) :
    Commits git r ((commitChanges worktree message identity).run.run answer r) := by
  obtain ⟨r1, hstaged, hlook1⟩ := h.addAll r
  have hindex : (git.look r1).index = (git.look r).files := by rw [hlook1]
  have hhead : (git.look r1).head = (git.look r).head := by rw [hlook1]
  unfold commitChanges
  rw [run_ask_bind, hstaged]
  show Commits git r ((ask (.commit _ _ _) >>= _).run.run answer r1)
  rw [run_ask_bind]
  by_cases hsame : (git.look r).files = (git.look r).head
  · obtain ⟨error, r2, hrefused, hlook2⟩ := h.commitNothing r1 (signedMessage message identity)
      identity.name identity.email (hindex.trans (hsame.trans hhead.symm))
    rw [hrefused]
    exact .inr ⟨hsame, ⟨_, rfl⟩, (congrArg Local.head hlook2).trans hhead⟩
  · obtain ⟨tip, r2, hcommitted, hlook2⟩ := h.commit r1 (signedMessage message identity)
      identity.name identity.email (by rwa [hindex, hhead])
    obtain ⟨r3, hparsed, hlook3⟩ := h.revParse r2
    rw [hcommitted]
    show Commits git r ((ask .revParse >>= _).run.run answer r2)
    rw [run_ask_bind, hparsed]
    refine .inl ⟨hsame, ?_, ?_⟩
    · show Except.ok (git.look r2).tip = Except.ok (git.look r3).tip
      rw [hlook3]
    · show (git.look r3).head = _
      rw [hlook3, hlook2]
      exact hindex

theorem commitAll_run (h : git.Serves worktree.branch answer) {message : String} (identity : CommitIdentity)
    (hblank : isBlank message = false) (r : ρ) :
    Commits git r ((commitAll worktree message identity).run.run answer r) := by
  obtain ⟨text, r1, hstatus, hlook1, hempty⟩ := h.status r
  have hchanges : hasChanges.run.run answer r =
      ((.ok (.ok !text.isEmpty), r1) : Except DeliveryError (Except GitError Bool) × ρ) := by
    unfold hasChanges
    rw [run_ask_bind, hstatus]
    rfl
  unfold commitAll
  rw [if_neg (by simp [hblank]), Calls.run_bindE, hchanges]
  cases hclean : text.isEmpty with
  | true =>
    obtain ⟨hindex, hhead⟩ := hempty.mp hclean
    exact .inr ⟨hindex.trans hhead, ⟨_, rfl⟩, congrArg Local.head hlook1⟩
  | false =>
    have hcommits := commitChanges_run h message identity r1
    unfold Commits at hcommits ⊢
    rw [hlook1] at hcommits
    exact hcommits

/-! ### publishing -/

theorem publish_outside (worktree : TaskWorktree) (request : DeliveryRequest) (commit : String) :
    (publish worktree request commit).run.Within Outside fun _ => True := by
  refine ⟨trivial, fun provided => ?_⟩
  cases provided with
  | error => trivial
  | ok =>
    refine ⟨trivial, fun pushed => ?_⟩
    cases pushed with
    | error => trivial
    | ok _ =>
      refine ⟨trivial, fun created => ?_⟩
      cases created <;> trivial

theorem publish_look (h : git.Serves worktree.branch answer) (request : DeliveryRequest) (commit : String)
    (r : ρ) : git.look ((publish worktree request commit).run.run answer r).2 = git.look r :=
  (Calls.Within.run (J := fun s => git.look s = git.look r) _ (publish_outside worktree request commit)
    (fun s q hq hs => (h.outside s q hq).trans hs) rfl).2

/-- the credential is there, the push of the branch with it succeeds, and so does its pull request -/
def Fine (worktree : TaskWorktree) (spec : DraftPullRequestSpec)
    (answer : ρ → (q : Request) → Answer q × ρ) (credential : String) : Prop :=
  (∀ r, (answer r .pushCredential).1 = .ok credential) ∧
  (∀ r, (answer r (.push worktree.branch credential)).1 = .ok ()) ∧
  ∀ r, ∃ handle, (answer r (.createPullRequest (newPullRequest worktree spec credential))).1 = .ok handle

theorem publish_run (h : git.Serves worktree.branch answer) {request : DeliveryRequest} {credential : String}
    (hfine : Fine worktree request.pullRequest answer credential) (commit : String) (r : ρ) :
    ∃ handle r', (publish worktree request commit).run.run answer r =
        (.ok { worktree, commit, pullRequest := handle }, r') ∧
      git.remote r' worktree.branch = some (git.look r).tip ∧
      newPullRequest worktree request.pullRequest credential ∈ git.pulls r' := by
  obtain ⟨hprovided, hpushed, hopened⟩ := hfine
  generalize hr1 : (answer r .pushCredential).2 = r1
  have hlook : git.look r1 = git.look r := hr1 ▸ h.outside r .pushCredential trivial
  generalize hr2 : (answer r1 (.push worktree.branch credential)).2 = r2
  have hremote := h.push r1 credential (hpushed r1)
  obtain ⟨hkept, hpull⟩ := h.createPullRequest r2 (newPullRequest worktree request.pullRequest credential)
  obtain ⟨handle, hhandle⟩ := hopened r2
  refine ⟨handle, _, ?_, by rw [hkept, ← hr2, hremote, hlook], hpull handle hhandle⟩
  unfold publish
  rw [run_ask_bind, hprovided, hr1]
  show ((ask (.push worktree.branch credential) >>= _) >>= _).run.run answer r1 = _
  rw [Calls.run_bindE, run_ask_bind, hpushed, hr2]
  show ((ask (.createPullRequest _) >>= _) >>= _).run.run answer r2 = _
  rw [Calls.run_bindE, run_ask_bind, hhandle]
  rfl

/-! ### deliveries -/

/-- one delivery: the edits of the worktree since the last one, what is to be delivered, and what is
answered -/
structure Turn (ρ : Type) where
  edit : ρ → ρ
  request : DeliveryRequest
  answer : ρ → (q : Request) → Answer q × ρ

/-- the edits commit nothing, and git serves the delivery -/
structure Turn.Lawful (t : Turn ρ) (git : Git ρ σ) (worktree : TaskWorktree) : Prop where
  edit : ∀ r, (git.look (t.edit r)).head = (git.look r).head
  serves : git.Serves worktree.branch t.answer

def Turn.run (worktree : TaskWorktree) (t : Turn ρ) (r : ρ) : Except DeliveryError DeliveryOutcome × ρ :=
  (deliver worktree t.request).run.run t.answer (t.edit r)

def after (worktree : TaskWorktree) : ρ → List (Turn ρ) → ρ
  | r, [] => r
  | r, t :: ts => after worktree (t.run worktree r).2 ts

/-- the files that the last delivery with a message found in the worktree, or `tree` if there was none -/
def lastFound (git : Git ρ σ) (worktree : TaskWorktree) (tree : σ) : ρ → List (Turn ρ) → σ
  | _, [] => tree
  | r, t :: ts => lastFound git worktree
      (if isBlank t.request.commitMessage then tree else (git.look (t.edit r)).files) (t.run worktree r).2 ts

variable {t : Turn ρ}

theorem run_cases (h : t.Lawful git worktree) (r : ρ) :
    (isBlank t.request.commitMessage = false ∧ (git.look (t.edit r)).files ≠ (git.look r).head ∧
      ∃ r1, (git.look r1).head = (git.look (t.edit r)).files ∧ t.run worktree r =
        (publish worktree t.request (git.look r1).tip).run.run t.answer r1) ∨
    ((isBlank t.request.commitMessage = true ∨ (git.look (t.edit r)).files = (git.look r).head) ∧
      ∃ e, (t.run worktree r).1 = .error e ∧ (git.look (t.run worktree r).2).head = (git.look r).head) := by
  have hrun : t.run worktree r = _ := Calls.run_bindE t.answer
    (commitAll worktree t.request.commitMessage t.request.identity) (publish worktree t.request) (t.edit r)
  cases hblank : isBlank t.request.commitMessage with
  | true =>
    unfold commitAll at hrun
    rw [if_pos hblank] at hrun
    refine .inr ⟨.inl rfl, .emptyCommitMessage, by rw [hrun]; rfl, ?_⟩
    rw [hrun]
    exact h.edit r
  | false =>
    have hcommits := commitAll_run h.serves t.request.identity hblank (t.edit r)
    revert hrun hcommits
    generalize (commitAll worktree t.request.commitMessage t.request.identity).run.run t.answer
      (t.edit r) = res
    rintro hrun (⟨hchanged, hok, hhead⟩ | ⟨hsame, ⟨e, herror⟩, hhead⟩)
    · obtain ⟨commit, r1⟩ := res
      obtain rfl : commit = .ok (git.look r1).tip := hok
      exact .inl ⟨rfl, h.edit r ▸ hchanged, r1, hhead, hrun⟩
    · obtain ⟨commit, r1⟩ := res
      obtain rfl : commit = _ := herror
      exact .inr ⟨.inr (hsame.trans (h.edit r)), e, by rw [hrun], by rw [hrun]; exact hhead.trans (h.edit r)⟩

/-- **A delivery commits before it can fail outside**: however it ends, the worktree is committed. -/
theorem run_head (h : t.Lawful git worktree) (r : ρ) : (git.look (t.run worktree r).2).head =
    if isBlank t.request.commitMessage then (git.look r).head else (git.look (t.edit r)).files := by
  obtain ⟨hblank, -, r1, hhead, hrun⟩ | ⟨hfails, e, -, hhead⟩ := run_cases h r
  · rw [hrun, publish_look h.serves, hhead, hblank]
    rfl
  · rw [hhead]
    split
    · rfl
    · rename_i hblank
      exact (hfails.resolve_left hblank).symm

theorem after_head {ts : List (Turn ρ)} (h : ∀ t ∈ ts, t.Lawful git worktree) (r : ρ) :
    (git.look (after worktree r ts)).head = lastFound git worktree (git.look r).head r ts := by
  induction ts generalizing r with
  | nil => rfl
  | cons t ts ih =>
    show (git.look (after worktree (t.run worktree r).2 ts)).head = _
    rw [ih fun t ht => h t (List.mem_cons_of_mem _ ht), run_head (h t List.mem_cons_self)]
    rfl

/-- the delivery succeeded: its branch is pushed up to the commit of the outcome, the one of the worktree's
files, and its draft pull request is open -/
def Delivered (git : Git ρ σ) (worktree : TaskWorktree) (t : Turn ρ) (credential : String) (r : ρ) : Prop :=
  ∃ outcome, (t.run worktree r).1 = .ok outcome ∧
    (git.look (t.run worktree r).2).head = (git.look (t.edit r)).files ∧
    (git.look (t.run worktree r).2).tip = outcome.commit ∧
    git.remote (t.run worktree r).2 worktree.branch = some outcome.commit ∧
    newPullRequest worktree t.request.pullRequest credential ∈ git.pulls (t.run worktree r).2

/-- **When a delivery succeeds** whose outside steps do: exactly when its message is not blank and its
worktree is not what the last delivery with a message found, or the base if there was none. -/
theorem deliver_ok_iff (git : Git ρ σ) (worktree : TaskWorktree) (r : ρ) (ts : List (Turn ρ)) (t : Turn ρ)
    (credential : String) (hts : ∀ t ∈ ts, t.Lawful git worktree) (ht : t.Lawful git worktree)
    (hfine : Fine worktree t.request.pullRequest t.answer credential) :
    Delivered git worktree t credential (after worktree r ts) ↔
      isBlank t.request.commitMessage = false ∧
        (git.look (t.edit (after worktree r ts))).files ≠ lastFound git worktree (git.look r).head r ts := by
  rw [← after_head hts]
  generalize after worktree r ts = r
  obtain ⟨hblank, hchanged, r1, hhead, hrun⟩ | ⟨hfails, e, herror, -⟩ := run_cases ht r
  · refine iff_of_true ?_ ⟨hblank, hchanged⟩
    obtain ⟨handle, r', hpublished, hremote, hpull⟩ := publish_run ht.serves hfine (git.look r1).tip r1
    have hlook := publish_look ht.serves t.request (git.look r1).tip r1
    rw [hpublished] at hrun hlook
    unfold Delivered
    rw [hrun]
    exact ⟨_, rfl, (congrArg Local.head hlook).trans hhead, congrArg Local.tip hlook, hremote, hpull⟩
  · refine iff_of_false ?_ ?_
    · rintro ⟨outcome, hok, -⟩
      rw [herror] at hok
      cases hok
    · rintro ⟨hblank, hchanged⟩
      obtain h | h := hfails
      · rw [hblank] at h
        cases h
      · exact hchanged h

end repo

/-! ### a retry -/

def botIdentity : CommitIdentity :=
  { name := "Bot", email := "bot@host", valid_name := by decide, valid_email := by decide }

def taskWorktree : TaskWorktree := { path := "/work/task", branch := "feat/task" }

/-- a repository with one file, and one branch on `origin` -/
structure TaskRepo where
  seen : Local Nat
  pushed : Option String
  pulls : List NewPullRequest
  deriving DecidableEq

def taskGit : Git TaskRepo Nat where
  look r := r.seen
  remote r branch := if branch = "feat/task" then r.pushed else none
  pulls r := r.pulls

def taskRepo : TaskRepo := { seen := ⟨0, 0, 0, "base"⟩, pushed := none, pulls := [] }

def taskAnswer (credential : Except CredentialError String) (r : TaskRepo) :
    (q : Request) → Answer q × TaskRepo
  | .status => (.ok (if r.seen.files = r.seen.index ∧ r.seen.index = r.seen.head then "" else "M"), r)
  | .addAll => (.ok (), { r with seen := { r.seen with index := r.seen.files } })
  | .commit _ _ _ =>
    if r.seen.index = r.seen.head then (.error ⟨"commit", some 1, "nothing to commit"⟩, r)
    else (.ok (), { r with seen := { r.seen with head := r.seen.index, tip := r.seen.tip ++ "'" } })
  | .revParse => (.ok r.seen.tip, r)
  | .push branch _ => (.ok (), if branch = "feat/task" then { r with pushed := some r.seen.tip } else r)
  | .pushCredential => (credential, r)
  | .createPullRequest request => (.ok ⟨7, ""⟩, { r with pulls := request :: r.pulls })

def taskTurn (files : Nat) (credential : Except CredentialError String) : Turn TaskRepo :=
  { edit := fun r => { r with seen := { r.seen with files } }
    answer := taskAnswer credential
    request :=
      { commitMessage := "feat: output", identity := botIdentity
        pullRequest := { owner := "o", repo := "r", title := "feat: output", baseBranch := "main"
                         specAnchors := [], evidencePaths := [] } } }

theorem taskTurn_lawful (files : Nat) (credential : Except CredentialError String) :
    (taskTurn files credential).Lawful taskGit taskWorktree where
  edit _ := rfl
  serves :=
    { status := fun r => ⟨_, _, rfl, rfl, by
        by_cases hclean : r.seen.files = r.seen.index ∧ r.seen.index = r.seen.head
        · exact iff_of_true (by rw [if_pos hclean]; rfl) hclean
        · exact iff_of_false (by rw [if_neg hclean]; decide) hclean⟩
      addAll := fun r => ⟨_, rfl, rfl⟩
      commitNothing := fun r _ _ _ hsame => ⟨_, r, if_pos hsame, rfl⟩
      commit := fun r _ _ _ hnew => ⟨_, _, if_neg hnew, rfl⟩
      revParse := fun r => ⟨r, rfl, rfl⟩
      outside := fun r q hq => by
        cases q with
        | push branch =>
          show taskGit.look (if branch = "feat/task" then _ else r) = _
          split <;> rfl
        | pushCredential | createPullRequest => rfl
        | status | addAll | commit | revParse => exact hq.elim
      push := fun _ _ _ => rfl
      createPullRequest := fun _ _ => ⟨rfl, fun _ _ => List.mem_cons_self⟩ }

/-- an expired credential fails the first delivery, which has committed; the retry finds nothing to commit -/
theorem retry_refused :
    ((taskTurn 1 (.error (.expired "1h"))).run taskWorktree taskRepo).1 =
      .error (.credential (.expired "1h")) ∧
    (taskTurn 1 (.error (.expired "1h"))).Lawful taskGit taskWorktree ∧
    (taskTurn 1 (.ok "token")).Lawful taskGit taskWorktree ∧
    Fine taskWorktree (taskTurn 1 (.ok "token")).request.pullRequest (taskAnswer (.ok "token")) "token" ∧
    ((taskTurn 1 (.ok "token")).run taskWorktree
      (after taskWorktree taskRepo [taskTurn 1 (.error (.expired "1h"))])) =
      (.error (.nothingToCommit "feat/task"),
        after taskWorktree taskRepo [taskTurn 1 (.error (.expired "1h"))]) := by
  refine ⟨by decide +kernel, taskTurn_lawful _ _, taskTurn_lawful _ _, ?_, by decide +kernel⟩
  exact ⟨fun _ => rfl, fun _ => rfl, fun _ => ⟨_, rfl⟩⟩

theorem deliver_ok_iff_edited : Delivered taskGit taskWorktree (taskTurn 2 (.ok "token")) "token"
    (after taskWorktree taskRepo [taskTurn 1 (.error (.expired "1h"))]) :=
  (deliver_ok_iff taskGit taskWorktree taskRepo _ _ _
    (List.forall_mem_singleton.mpr (taskTurn_lawful 1 _)) (taskTurn_lawful 2 _)
    ⟨fun _ => rfl, fun _ => rfl, fun _ => ⟨_, rfl⟩⟩).mpr (by decide +kernel)

end Workspace

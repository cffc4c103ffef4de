import Orchestraitor.Delivery.Dag

/-!
# Parallel scheduling (`schedule.rs`)

`ParallelScheduler.select` walks the eligible tasks once, in id order, and takes each one that
fits under the caps next to the running tasks and the tasks taken before it.

* `Caps`              the four caps on a list of in-flight tasks, closed under sub-lists.
-/

namespace Delivery
open Base Std List

structure SchedulerConfig where
  maxConcurrent : Nat := 4
  maxPerDomain : Option Nat := none
  reviewCapacity : Nat := 8

inductive SchedulerConfigError where
  | zeroMaxConcurrent
  | zeroMaxPerDomain
  | zeroReviewCapacity

def SchedulerConfig.validate (c : SchedulerConfig) : Except SchedulerConfigError Unit :=
  if c.maxConcurrent = 0 then .error .zeroMaxConcurrent
  else if c.reviewCapacity = 0 then .error .zeroReviewCapacity
  else if c.maxPerDomain = some 0 then .error .zeroMaxPerDomain
  else .ok ()

theorem SchedulerConfig.validate_ok {c : SchedulerConfig} (h : c.validate = .ok ()) :
    0 < c.maxConcurrent ∧ 0 < c.reviewCapacity ∧ ∀ cap, c.maxPerDomain = some cap → 0 < cap := by
  rw [validate] at h
  split_ifs at h with h1 h2 h3
  refine ⟨by omega, by omega, fun cap hcap => ?_⟩
  rcases Nat.eq_zero_or_pos cap with e | e
  · exact absurd (e ▸ hcap) h3
  · exact e

structure ParallelScheduler where
  config : SchedulerConfig

variable (dag : TaskDag)

def TaskDag.domainOf (id : BacklogTaskId) : Option DomainId :=
  (dag.get id).map (·.domain)

def TaskDag.filesOf (id : BacklogTaskId) : List String :=
  ((dag.get id).map (·.expectedFiles)).getD []

/-! ## the selection loop -/

structure Claims where
  domainLoad : OrdMap DomainId Nat
  claimedFiles : OrdSet String

def Claims.charge (c : Claims) (task : TaskMetadata) : Claims where
  domainLoad := OrdMap.bump c.domainLoad task.domain
  claimedFiles := c.claimedFiles.insertMany task.expectedFiles

def Claims.ofRunning (running : List BacklogTaskId) : Claims :=
  running.foldl (fun c id => match dag.get id with
    | some task => c.charge task
    | none => c) ⟨∅, ∅⟩

def Claims.atDomainCap (c : Claims) (config : SchedulerConfig) (task : TaskMetadata) : Bool :=
  match config.maxPerDomain with
  | some cap => decide (cap ≤ c.domainLoad[task.domain]?.getD 0)
  | none => false

def Claims.conflicts (c : Claims) (task : TaskMetadata) : Bool :=
  task.expectedFiles.any (fun path => c.claimedFiles.contains path)

namespace ParallelScheduler
variable (sched : ParallelScheduler) (dag : TaskDag)

def selectLoop (running : OrdSet BacklogTaskId) :
    List BacklogTaskId → Nat → Claims → List BacklogTaskId → List BacklogTaskId
  | [], _, _, selected => selected
  | id :: rest, slots, claims, selected =>
    if slots = 0 then selected
    else if id ∈ running then selectLoop running rest slots claims selected
    else
      match dag.get id with
      | none => selectLoop running rest slots claims selected
      | some task =>
        if claims.atDomainCap sched.config task then selectLoop running rest slots claims selected
        else if claims.conflicts task then selectLoop running rest slots claims selected
        else selectLoop running rest (slots - 1) (claims.charge task) (selected ++ [id])

def slots (running : List BacklogTaskId) (underReview : Nat) : Nat :=
  min (sched.config.maxConcurrent - running.length)
    (sched.config.reviewCapacity - (underReview + running.length))

def select (completed : OrdSet BacklogTaskId) (running : List BacklogTaskId)
    (underReview : Nat) : List BacklogTaskId :=
  if sched.config.maxConcurrent - running.length = 0 then []
  else if sched.slots running underReview = 0 then []
  else
    sched.selectLoop dag (ExtTreeSet.ofList running compare) (dag.eligible completed)
      (sched.slots running underReview) (Claims.ofRunning dag running) []

end ParallelScheduler

/-! ## the caps -/

/-- no two tasks expect the same file -/
def FilesDisjoint (a b : BacklogTaskId) : Prop := ∀ f ∈ dag.filesOf a, f ∉ dag.filesOf b

/-- the caps on the tasks in flight -/
structure Caps (config : SchedulerConfig) (dag : TaskDag) (l : List BacklogTaskId) : Prop where
  concurrent : l.length ≤ config.maxConcurrent
  review : l.length ≤ config.reviewCapacity
  perDomain : ∀ cap, config.maxPerDomain = some cap →
    ∀ d, l.countP (fun id => dag.domainOf id == some d) ≤ cap
  files : l.Pairwise (FilesDisjoint dag)

section
variable {config : SchedulerConfig} {dag : TaskDag}

theorem FilesDisjoint.symm {a b : BacklogTaskId} (h : FilesDisjoint dag a b) : FilesDisjoint dag b a :=
  fun f hf hfa => h f hfa hf

instance : Std.Symm (FilesDisjoint dag) := ⟨fun _ _ => FilesDisjoint.symm⟩

theorem Caps.nil : Caps config dag [] :=
  ⟨Nat.zero_le _, Nat.zero_le _, fun _ _ _ => Nat.zero_le _, List.Pairwise.nil⟩

variable {l : List BacklogTaskId} {id : BacklogTaskId}

theorem Caps.of_subperm {l' : List BacklogTaskId} (h : Caps config dag l) (hs : l'.Subperm l) :
    Caps config dag l' := by
  refine ⟨hs.length_le.trans h.concurrent, hs.length_le.trans h.review, ?_, ?_⟩
  · exact fun cap hcap d => (hs.countP_le _).trans (h.perDomain cap hcap d)
  · obtain ⟨m, hperm, hsub⟩ := hs
    exact (hperm.pairwise_iff FilesDisjoint.symm).mp (h.files.sublist hsub)

theorem Caps.concat (h : Caps config dag l) (hlen : l.length < config.maxConcurrent)
    (hrev : l.length < config.reviewCapacity) (hdom : ∀ cap, config.maxPerDomain = some cap → ∀ d,
      dag.domainOf id = some d → l.countP (fun x => dag.domainOf x == some d) < cap)
    (hfiles : ∀ a ∈ l, FilesDisjoint dag a id) : Caps config dag (l ++ [id]) := by
  have hl : (l ++ [id]).length = l.length + 1 := by simp
  refine ⟨by omega, by omega, ?_, ?_⟩
  · intro cap hcap d
    rw [countP_append, countP_singleton]
    by_cases e : dag.domainOf id = some d
    · have := hdom cap hcap d e
      simp only [e, beq_self_eq_true, ↓reduceIte]
      omega
    · have := h.perDomain cap hcap d
      simp only [beq_iff_eq, e]
      exact this
  · rw [pairwise_append]
    refine ⟨h.files, pairwise_singleton _ _, fun a ha b hb => ?_⟩
    rw [mem_singleton] at hb
    rw [hb]
    exact hfiles a ha

/-! ## what the claims record -/

/-- `c` records exactly the tasks of `l` -/
structure Claims.Records (dag : TaskDag) (l : List BacklogTaskId) (c : Claims) : Prop where
  load : ∀ d, c.domainLoad[d]?.getD 0 = l.countP (fun id => dag.domainOf id == some d)
  files : ∀ f, f ∈ c.claimedFiles ↔ ∃ id ∈ l, f ∈ dag.filesOf id

theorem Claims.Records.charge {c : Claims} (h : c.Records dag l) {task : TaskMetadata}
    (hg : dag.get id = some task) : (c.charge task).Records dag (l ++ [id]) := by
  have hdom : dag.domainOf id = some task.domain := by rw [TaskDag.domainOf, hg]; rfl
  have hfiles : dag.filesOf id = task.expectedFiles := by rw [TaskDag.filesOf, hg]; rfl
  constructor
  · intro d
    show (OrdMap.bump c.domainLoad task.domain)[d]?.getD 0 = _
    rw [OrdMap.getD_bump, h.load, countP_append, countP_singleton, hdom]
    by_cases e : d = task.domain
    · simp [e]
    · have e' : ¬ task.domain = d := fun x => e x.symm
      simp [e, e']
  · intro f
    show f ∈ c.claimedFiles.insertMany task.expectedFiles ↔ _
    rw [ExtTreeSet.mem_insertMany_list, h.files, contains_iff_mem, ← hfiles]
    simp only [mem_append, mem_singleton, or_and_right, exists_or, exists_eq_left]

theorem Claims.Records.of_get_none {c : Claims} (h : c.Records dag l) (hg : dag.get id = none) :
    c.Records dag (l ++ [id]) := by
  have hdom : dag.domainOf id = none := by rw [TaskDag.domainOf, hg]; rfl
  have hfiles : dag.filesOf id = [] := by rw [TaskDag.filesOf, hg]; rfl
  constructor
  · intro d
    rw [h.load, countP_append, countP_singleton, hdom]
    simp
  · intro f
    rw [h.files]
    simp only [mem_append, mem_singleton, or_and_right, exists_or, exists_eq_left,
      hfiles, not_mem_nil, or_false]

theorem Claims.ofRunning_records (running : List BacklogTaskId) :
    (Claims.ofRunning dag running).Records dag running := by
  induction running using reverseRecOn with
  | nil => exact ⟨fun d => by simp [Claims.ofRunning], fun f => by simp [Claims.ofRunning]⟩
  | append_singleton l id ih =>
    rw [Claims.ofRunning, foldl_append, foldl_cons]
    cases hg : dag.get id with
    | none => exact ih.of_get_none hg
    | some => exact ih.charge hg

end

/-! ## the selection respects the caps -/

namespace ParallelScheduler
variable (sched : ParallelScheduler) (dag : TaskDag)

/-- a task that may not start next to `claims` -/
def Refused (claims : Claims) (id : BacklogTaskId) : Prop :=
  ∃ task, dag.get id = some task ∧
    (claims.atDomainCap sched.config task = true ∨ claims.conflicts task = true)

theorem selectLoop_cons (running : OrdSet BacklogTaskId) (id : BacklogTaskId)
    (rest : List BacklogTaskId) (slots : Nat) (claims : Claims) (selected : List BacklogTaskId) :
    ((id ∉ running → id ∈ dag.tasks → sched.Refused dag claims id) ∧
      sched.selectLoop dag running (id :: rest) (slots + 1) claims selected
        = sched.selectLoop dag running rest (slots + 1) claims selected) ∨
      ∃ task, dag.get id = some task ∧ id ∉ running ∧
        claims.atDomainCap sched.config task = false ∧ claims.conflicts task = false ∧
        sched.selectLoop dag running (id :: rest) (slots + 1) claims selected
          = sched.selectLoop dag running rest slots (claims.charge task) (selected ++ [id]) := by
  rw [selectLoop, if_neg (Nat.succ_ne_zero _)]
  by_cases hr : id ∈ running
  · exact .inl ⟨fun h => absurd hr h, by rw [if_pos hr]⟩
  · rw [if_neg hr]
    cases hg : dag.get id with
    | none =>
      refine .inl ⟨fun _ hmem => ?_, rfl⟩
      obtain ⟨task, htask⟩ := dag.mem_tasks_iff.mp hmem
      rw [hg] at htask
      cases htask
    | some task =>
      cases hd : claims.atDomainCap sched.config task with
      | true => exact .inl ⟨fun _ _ => ⟨task, hg, .inl hd⟩, by simp [hd]⟩
      | false =>
        cases hc : claims.conflicts task with
        | true => exact .inl ⟨fun _ _ => ⟨task, hg, .inr hc⟩, by simp [hc]⟩
        | false => exact .inr ⟨task, rfl, hr, hd, hc, by simp [hd, hc]⟩

variable (completed : OrdSet BacklogTaskId) (running : List BacklogTaskId) (underReview : Nat)

theorem selectLoop_caps (set : OrdSet BacklogTaskId) (l : List BacklogTaskId) (slots : Nat)
    (claims : Claims) (selected : List BacklogTaskId)
    (hc : (running ++ selected).length + slots ≤ sched.config.maxConcurrent)
    (hr : (running ++ selected).length + slots ≤ sched.config.reviewCapacity)
    (hrec : claims.Records dag (running ++ selected))
    (hcaps : Caps sched.config dag (running ++ selected)) :
    Caps sched.config dag (running ++ sched.selectLoop dag set l slots claims selected) := by
  induction l generalizing slots claims selected with
  | nil => exact hcaps
  | cons id rest ih =>
    cases slots with
    | zero => rw [selectLoop]; exact hcaps
    | succ slots =>
      rcases sched.selectLoop_cons dag set id rest slots claims selected with ⟨-, e⟩ | e
      · rw [e]; exact ih _ _ _ hc hr hrec hcaps
      · obtain ⟨task, hg, _, hcap, hconf, e⟩ := e
        rw [e]
        have hdom : dag.domainOf id = some task.domain := by rw [TaskDag.domainOf, hg]; rfl
        have hfiles : dag.filesOf id = task.expectedFiles := by rw [TaskDag.filesOf, hg]; rfl
        have hassoc : running ++ (selected ++ [id]) = (running ++ selected) ++ [id] :=
          (append_assoc _ _ _).symm
        have hlen : (running ++ (selected ++ [id])).length
            = (running ++ selected).length + 1 := by
          rw [hassoc, length_append, length_singleton]
        refine ih _ _ _ (by omega) (by omega) (hassoc ▸ hrec.charge hg) (hassoc ▸ ?_)
        refine hcaps.concat (by omega) (by omega) ?_ ?_
        · intro _ hcapc d hd
          have hdd : d = task.domain := Option.some.inj (hd.symm.trans hdom)
          rw [Claims.atDomainCap, hcapc] at hcap
          rw [hdd, ← hrec.load]
          simpa using hcap
        · intro a ha f hfa hfid
          rw [hfiles] at hfid
          have hclaimed : f ∈ claims.claimedFiles := (hrec.files f).mpr ⟨a, ha, hfa⟩
          have : claims.conflicts task = true :=
            any_eq_true.mpr ⟨f, hfid, ExtTreeSet.contains_iff_mem.mpr hclaimed⟩
          rw [hconf] at this
          exact absurd this (by simp)

theorem select_caps (h : Caps sched.config dag running) :
    Caps sched.config dag (running ++ sched.select dag completed running underReview) := by
  rw [select]
  split_ifs with h1 h2
  · rwa [append_nil]
  · rwa [append_nil]
  · have hs : sched.slots running underReview ≤ sched.config.maxConcurrent - running.length ∧
        sched.slots running underReview
          ≤ sched.config.reviewCapacity - (underReview + running.length) := by
      rw [slots]; omega
    have hlen : (running ++ ([] : List BacklogTaskId)).length = running.length := by simp
    refine sched.selectLoop_caps dag running _ _ _ _ [] ?_ ?_ ?_ ?_
    · omega
    · omega
    · rw [append_nil]; exact Claims.ofRunning_records running
    · rwa [append_nil]

/-! ## which tasks are selected -/

theorem selectLoop_sublist (set : OrdSet BacklogTaskId) (l : List BacklogTaskId) (slots : Nat)
    (claims : Claims) (selected : List BacklogTaskId) :
    ∃ m, sched.selectLoop dag set l slots claims selected = selected ++ m ∧
      m.Sublist l ∧ ∀ id ∈ m, id ∉ set := by
  induction l generalizing slots claims selected with
  | nil => exact ⟨[], (append_nil _).symm, List.Sublist.refl _, by simp⟩
  | cons id rest ih =>
    cases slots with
    | zero =>
      exact ⟨[], (append_nil _).symm, nil_sublist _, by simp⟩
    | succ slots =>
      rcases sched.selectLoop_cons dag set id rest slots claims selected with ⟨-, e⟩ | e
      · rw [e]
        obtain ⟨m, hm, hsub, hset⟩ := ih (slots + 1) claims selected
        exact ⟨m, hm, hsub.cons id, hset⟩
      · obtain ⟨task, _, hr, _, _, e⟩ := e
        rw [e]
        obtain ⟨m, hm, hsub, hset⟩ := ih slots (claims.charge task) (selected ++ [id])
        refine ⟨id :: m, by rw [hm, append_assoc, singleton_append],
          hsub.cons_cons id, ?_⟩
        intro a ha
        rcases mem_cons.mp ha with e' | e'
        · rw [e']; exact hr
        · exact hset a e'

theorem select_sublist :
    (sched.select dag completed running underReview).Sublist (dag.eligible completed) ∧
      ∀ id ∈ sched.select dag completed running underReview, id ∉ running := by
  rw [select]
  split_ifs with h1 h2
  · exact ⟨nil_sublist _, by simp⟩
  · exact ⟨nil_sublist _, by simp⟩
  · obtain ⟨m, hm, hsub, hset⟩ := sched.selectLoop_sublist dag
      (ExtTreeSet.ofList running compare) (dag.eligible completed)
      (sched.slots running underReview) (Claims.ofRunning dag running) []
    rw [hm]
    refine ⟨hsub, fun id hid hrun => hset id hid ?_⟩
    rw [ExtTreeSet.mem_ofList, contains_iff_mem]
    exact hrun

theorem mem_select {completed : OrdSet BacklogTaskId} {running : List BacklogTaskId}
    {underReview : Nat} {id : BacklogTaskId}
    (h : id ∈ sched.select dag completed running underReview) :
    id ∈ dag.eligible completed ∧ id ∉ running :=
  ⟨(sched.select_sublist dag _ _ _).1.subset h, (sched.select_sublist dag _ _ _).2 id h⟩

/-! ## the selection is maximal -/

/-- next to the tasks of `l`, the task breaks the cap of its domain or expects a file of theirs -/
def Blocked (l : List BacklogTaskId) (id : BacklogTaskId) : Prop :=
  (∃ cap d, sched.config.maxPerDomain = some cap ∧ dag.domainOf id = some d ∧
    cap < (l ++ [id]).countP (fun a => dag.domainOf a == some d)) ∨
  ∃ a ∈ l, ¬ FilesDisjoint dag a id

variable {sched dag}

theorem Blocked.mono {l m : List BacklogTaskId} {id : BacklogTaskId} (h : sched.Blocked dag l id)
    (hs : l.Sublist m) : sched.Blocked dag m id := by
  obtain ⟨cap, d, hcap, hd, hlt⟩ | ⟨a, ha, hf⟩ := h
  · exact .inl ⟨cap, d, hcap, hd, hlt.trans_le ((hs.append (List.Sublist.refl _)).countP_le)⟩
  · exact .inr ⟨a, hs.subset ha, hf⟩

theorem Refused.blocked {claims : Claims} {l : List BacklogTaskId} {id : BacklogTaskId}
    (h : sched.Refused dag claims id) (hrec : claims.Records dag l) : sched.Blocked dag l id := by
  obtain ⟨task, hg, hcap | hconf⟩ := h
  · have hdom : dag.domainOf id = some task.domain := by rw [TaskDag.domainOf, hg]; rfl
    unfold Claims.atDomainCap at hcap
    split at hcap
    next cap hmax =>
      refine .inl ⟨cap, task.domain, hmax, hdom, ?_⟩
      rw [countP_append, countP_singleton, hdom, ← hrec.load]
      simp only [beq_self_eq_true]
      exact Nat.lt_succ_of_le (of_decide_eq_true hcap)
    next => cases hcap
  · have hfiles : dag.filesOf id = task.expectedFiles := by rw [TaskDag.filesOf, hg]; rfl
    obtain ⟨f, hf, hclaimed⟩ := any_eq_true.mp hconf
    obtain ⟨a, ha, hfa⟩ := (hrec.files f).mp (ExtTreeSet.contains_iff_mem.mp hclaimed)
    exact .inr ⟨a, ha, fun hdis => hdis f hfa (hfiles ▸ hf)⟩

variable (sched dag)

theorem selectLoop_maximal (set : OrdSet BacklogTaskId) (l : List BacklogTaskId) (slots : Nat)
    (claims : Claims) (selected : List BacklogTaskId)
    (hrec : claims.Records dag (running ++ selected)) {id : BacklogTaskId} (hid : id ∈ l)
    (hmem : id ∈ dag.tasks) (hset : id ∉ set)
    (hnot : id ∉ sched.selectLoop dag set l slots claims selected) :
    (sched.selectLoop dag set l slots claims selected).length = selected.length + slots ∨
      sched.Blocked dag (running ++ sched.selectLoop dag set l slots claims selected) id := by
  induction l generalizing slots claims selected with
  | nil => cases hid
  | cons first rest ih =>
    cases slots with
    | zero =>
      exact .inl rfl
    | succ slots =>
      obtain ⟨hrefused, e⟩ | ⟨task, hg, _, _, _, e⟩ :=
        sched.selectLoop_cons dag set first rest slots claims selected
      · rw [e] at hnot ⊢
        obtain rfl | hid := mem_cons.mp hid
        · obtain ⟨m, hm, _⟩ := sched.selectLoop_sublist dag set rest (slots + 1) claims selected
          refine .inr (((hrefused hset hmem).blocked hrec).mono ?_)
          rw [hm, ← append_assoc]
          exact sublist_append_left _ _
        · exact ih _ _ _ hrec hid hnot
      · rw [e] at hnot ⊢
        obtain rfl | hid := mem_cons.mp hid
        · obtain ⟨m, hm, _⟩ := sched.selectLoop_sublist dag set rest slots (claims.charge task)
            (selected ++ [id])
          refine absurd ?_ hnot
          rw [hm]
          simp
        · have hrec' := hrec.charge hg
          rw [append_assoc] at hrec'
          have hlen : selected.length + (slots + 1) = (selected ++ [first]).length + slots := by
            rw [length_append, length_singleton]
            omega
          rw [hlen]
          exact ih _ _ _ hrec' hid hnot

/-- The selection lists eligible tasks that are not running, in ascending order without repetition;
a task that it leaves out finds all slots used, or is blocked by a running or a selected task. -/
theorem select_maximal :
    (sched.select dag completed running underReview).Nodup ∧
    (sched.select dag completed running underReview).Pairwise (· < ·) ∧
    (∀ id ∈ sched.select dag completed running underReview,
      id ∈ dag.eligible completed ∧ id ∉ running) ∧
    ∀ id ∈ dag.eligible completed, id ∉ running →
      id ∉ sched.select dag completed running underReview →
      (sched.select dag completed running underReview).length =
        min (sched.config.maxConcurrent - running.length)
          (sched.config.reviewCapacity - underReview - running.length) ∨
      sched.Blocked dag (running ++ sched.select dag completed running underReview) id := by
  have hsorted := (dag.eligible_sorted completed).sublist
    (sched.select_sublist dag completed running underReview).1
  refine ⟨hsorted.imp fun h => h.ne, hsorted, fun _ => sched.mem_select dag, ?_⟩
  intro id hid _ hnot
  rw [Nat.sub_sub]
  show _ = sched.slots running underReview ∨ _
  unfold select at hnot ⊢
  split_ifs at hnot ⊢ with hfull hslots
  · left
    rw [slots, hfull]
    rfl
  · exact .inl hslots.symm
  · have hset : id ∉ ExtTreeSet.ofList running compare := by
      rwa [ExtTreeSet.mem_ofList, contains_iff_mem]
    have hrec : (Claims.ofRunning dag running).Records dag (running ++ []) := by
      rw [append_nil]
      exact Claims.ofRunning_records running
    have hmax := sched.selectLoop_maximal dag running _ _ _ _ _ hrec hid (dag.mem_eligible.mp hid).1
      hset hnot
    rwa [length_nil, Nat.zero_add] at hmax

theorem select_ne_nil {completed : OrdSet BacklogTaskId} (hv : sched.config.validate = .ok ())
    (he : dag.eligible completed ≠ []) : sched.select dag completed [] 0 ≠ [] := by
  obtain ⟨hmc, hrc, hdom⟩ := SchedulerConfig.validate_ok hv
  obtain ⟨id, rest, hl⟩ := exists_cons_of_ne_nil he
  have hin : id ∈ dag.eligible completed := by rw [hl]; exact mem_cons_self
  obtain ⟨task, hg⟩ := dag.mem_tasks_iff.mp (dag.mem_eligible.mp hin).1
  have hslots : ∃ n, sched.slots [] 0 = n + 1 := by
    refine Nat.exists_eq_succ_of_ne_zero ?_
    rw [slots, length_nil]
    omega
  obtain ⟨n, hn⟩ := hslots
  have hcap : (Claims.ofRunning dag []).atDomainCap sched.config task = false := by
    rw [Claims.atDomainCap]
    cases hm : sched.config.maxPerDomain with
    | none => rfl
    | some cap =>
      have := hdom cap hm
      simp only [Claims.ofRunning]
      simp
      omega
  have hconf : (Claims.ofRunning dag []).conflicts task = false := by
    simp [Claims.conflicts, Claims.ofRunning]
  rw [select, length_nil, if_neg (by omega), hn, hl]
  rw [selectLoop, hg]
  simp only [hcap, hconf]
  obtain ⟨m, hm, _⟩ := sched.selectLoop_sublist dag (ExtTreeSet.ofList [] compare) rest
    (n + 1 - 1) ((Claims.ofRunning dag []).charge task) ([] ++ [id])
  rw [hm]
  simp

end ParallelScheduler
end Delivery

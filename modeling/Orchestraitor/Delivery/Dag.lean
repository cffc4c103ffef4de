import Orchestraitor.Base.Kahn
import Orchestraitor.Delivery.Metadata

/-!
# The backlog dependency graph (`dag.rs`)

A `TaskDag` carries what construction checked: every entry sits under its own id, passed its
metadata check, and every dependency is an entry.
-/

namespace Delivery
open Base Std ExtTreeMap Relation

inductive DagError where
  | invalidMetadata (id : String) (source : MetadataError)
  | duplicateTask (id : String)
  | unknownDependency (id dep : String)
  | cycle (path : List String)

structure TaskDag where
  tasks : OrdMap BacklogTaskId TaskMetadata
  keyed : ∀ (id : BacklogTaskId) (t : TaskMetadata), tasks[id]? = some t → t.id = id
  valid : ∀ (id : BacklogTaskId) (t : TaskMetadata), tasks[id]? = some t → t.validate = .ok ()
  known : ∀ (id : BacklogTaskId) (t : TaskMetadata), tasks[id]? = some t → ∀ dep ∈ t.dependencies, dep ∈ tasks

namespace TaskDag

/-! ## construction -/

def insertAll (map : OrdMap BacklogTaskId TaskMetadata) :
    List TaskMetadata → Except DagError (OrdMap BacklogTaskId TaskMetadata)
  | [] => .ok map
  | task :: rest =>
    match task.validate with
    | .error source => .error (.invalidMetadata task.id source)
    | .ok () =>
      if task.id ∈ map then .error (.duplicateTask task.id)
      else insertAll (map.insert task.id task) rest

def checkEdges (map : OrdMap BacklogTaskId TaskMetadata) :
    List (BacklogTaskId × TaskMetadata) → Except DagError Unit
  | [] => .ok ()
  | (id, task) :: rest =>
    match task.dependencies.find? (fun dep => !map.contains dep) with
    | some dep => .error (.unknownDependency id dep)
    | none => checkEdges map rest

theorem insertAll_spec {map out : OrdMap BacklogTaskId TaskMetadata} {l : List TaskMetadata}
    (h : insertAll map l = .ok out)
    (hm : ∀ (id : BacklogTaskId) (t : TaskMetadata), map[id]? = some t → t.id = id ∧ t.validate = .ok ()) :
    ∀ (id : BacklogTaskId) (t : TaskMetadata), out[id]? = some t → t.id = id ∧ t.validate = .ok () := by
  induction l generalizing map with
  | nil =>
    have e : map = out := Except.ok.inj h
    rw [← e]
    exact hm
  | cons task _ ih =>
    rw [insertAll] at h
    cases hv : task.validate with
    | error => rw [hv] at h; exact absurd h (by simp)
    | ok =>
      rw [hv] at h
      by_cases e : task.id ∈ map
      · simp [e] at h
      · simp only [e] at h
        refine ih h (fun id t hget => ?_)
        rw [OrdMap.get_insert] at hget
        by_cases hid : id = task.id
        · rw [if_pos hid] at hget
          rw [← Option.some.inj hget]
          exact ⟨hid.symm, hv⟩
        · rw [if_neg hid] at hget
          exact hm id t hget

theorem checkEdges_spec {map : OrdMap BacklogTaskId TaskMetadata}
    {l : List (BacklogTaskId × TaskMetadata)} (h : checkEdges map l = .ok ()) :
    ∀ p ∈ l, ∀ dep ∈ p.2.dependencies, dep ∈ map := by
  induction l with
  | nil => simp
  | cons p _ ih =>
    rw [checkEdges] at h
    cases hf : p.2.dependencies.find? (fun dep => !map.contains dep) with
    | some => rw [hf] at h; exact absurd h (by simp)
    | none =>
      rw [hf] at h
      intro q hq dep hdep
      rcases List.mem_cons.mp hq with e | e
      · have := List.find?_eq_none.mp hf dep (e ▸ hdep)
        simpa using this
      · exact ih h q e dep hdep

def new (tasks : List TaskMetadata) : Except DagError TaskDag :=
  match hm : insertAll ∅ tasks with
  | .error e => .error e
  | .ok map =>
    match he : checkEdges map map.toList with
    | .error e => .error e
    | .ok () =>
      have hspec := insertAll_spec hm (by simp)
      .ok {
        tasks := map
        keyed := fun id t h => (hspec id t h).1
        valid := fun id t h => (hspec id t h).2
        known := fun id t h =>
          checkEdges_spec he (id, t) (ExtTreeMap.mem_toList_iff_getElem?_eq_some.mpr h) }

variable (dag : TaskDag)

def get (id : BacklogTaskId) : Option TaskMetadata := dag.tasks[id]?

def len : Nat := dag.tasks.size

def deps (id : BacklogTaskId) : List BacklogTaskId := ((dag.get id).map (·.dependencies)).getD []

/-! ## ordering and eligibility -/

def topologicalOrder : Except DagError (List BacklogTaskId) :=
  let s := kahn dag.tasks.keys dag.deps
  if s.order.length ≠ dag.len then
    .error (.cycle (dag.tasks.keys.filter (fun id => !s.ordered.contains id)))
  else .ok s.order

def eligible (completed : OrdSet BacklogTaskId) : List BacklogTaskId :=
  (dag.tasks.toList.filter (fun p =>
    !completed.contains p.1 && p.2.dependencies.all (fun dep => completed.contains dep))).map (·.1)

theorem mem_tasks_iff {id : BacklogTaskId} : id ∈ dag.tasks ↔ ∃ t, dag.get id = some t :=
  OrdMap.mem_iff_get _ _

theorem deps_of_get {id : BacklogTaskId} {t : TaskMetadata} (h : dag.get id = some t) :
    dag.deps id = t.dependencies := by
  rw [deps, h]
  rfl

theorem deps_mem {id dep : BacklogTaskId} (hd : dep ∈ dag.deps id) : dep ∈ dag.tasks := by
  cases hg : dag.get id with
  | none => rw [deps, hg] at hd; simp at hd
  | some t =>
    rw [dag.deps_of_get hg] at hd
    exact dag.known id t hg dep hd

theorem mem_eligible {completed : OrdSet BacklogTaskId} {id : BacklogTaskId} :
    id ∈ dag.eligible completed ↔
      id ∈ dag.tasks ∧ id ∉ completed ∧ ∀ dep ∈ dag.deps id, dep ∈ completed := by
  rw [eligible, List.mem_map]
  constructor
  · rintro ⟨⟨k, t⟩, hp, rfl⟩
    obtain ⟨hmem, hcond⟩ := List.mem_filter.mp hp
    have hg : dag.get k = some t := OrdMap.get_of_mem_toList _ hmem
    rw [dag.deps_of_get hg]
    simp only [Bool.and_eq_true, Bool.not_eq_true', List.all_eq_true] at hcond
    refine ⟨dag.mem_tasks_iff.mpr ⟨t, hg⟩, ?_, hcond.2⟩
    rw [← ExtTreeSet.contains_iff_mem, hcond.1]
    simp
  · rintro ⟨hmem, hnc, hdeps⟩
    obtain ⟨t, hg⟩ := dag.mem_tasks_iff.mp hmem
    rw [dag.deps_of_get hg] at hdeps
    refine ⟨(id, t), List.mem_filter.mpr ⟨mem_toList_iff_getElem?_eq_some.mpr hg, ?_⟩, rfl⟩
    simp only [Bool.and_eq_true, Bool.not_eq_true', List.all_eq_true]
    refine ⟨?_, hdeps⟩
    rw [← Bool.not_eq_true]
    exact hnc

theorem keys_sorted : dag.tasks.keys.Pairwise (· < ·) :=
  ordered_keys.imp compare_lt_iff_lt.mp

theorem eligible_sorted (completed : OrdSet BacklogTaskId) :
    (dag.eligible completed).Pairwise (· < ·) := by
  have hsub : (dag.eligible completed).Sublist dag.tasks.keys := by
    rw [← map_fst_toList_eq_keys]
    exact List.filter_sublist.map _
  exact dag.keys_sorted.sublist hsub

/-! ## what the two results of `topologicalOrder` mean -/

theorem kahn_keys : KahnInv dag.tasks.keys dag.deps (kahn dag.tasks.keys dag.deps) ∧
    Stuck dag.deps {t | t ∈ dag.tasks.keys ∧ t ∉ (kahn dag.tasks.keys dag.deps).ordered} :=
  kahn_spec _ _ (OrdMap.nodup_keys _) (fun _ _ _ hd => mem_keys.mpr (dag.deps_mem hd))

theorem topologicalOrder_ok {order : List BacklogTaskId} (h : dag.topologicalOrder = .ok order) :
    order = (kahn dag.tasks.keys dag.deps).order ∧ ReadyOrder dag.deps ∅ order ∧
      order.Perm dag.tasks.keys := by
  rw [topologicalOrder] at h
  by_cases e : (kahn dag.tasks.keys dag.deps).order.length ≠ dag.len
  · rw [if_pos e] at h; exact absurd h (by simp)
  · rw [if_neg e] at h
    obtain ⟨hinv, _⟩ := dag.kahn_keys
    rw [← Except.ok.inj h]
    have hlen : dag.tasks.keys.length ≤ (kahn dag.tasks.keys dag.deps).order.length := by
      rw [length_keys]
      exact Nat.le_of_eq (not_not.mp e).symm
    exact ⟨rfl, hinv.legal, (List.subperm_of_subset hinv.nodup hinv.within).perm_of_length_le hlen⟩

theorem topologicalOrder_error {error : DagError} (h : dag.topologicalOrder = .error error) :
    ∃ path, error = .cycle path ∧ path.Pairwise (· < ·) ∧ path ≠ [] ∧
      ∀ t, t ∈ path ↔ t ∈ dag.tasks.keys ∧ t ∉ (kahn dag.tasks.keys dag.deps).ordered := by
  rw [topologicalOrder] at h
  by_cases e : (kahn dag.tasks.keys dag.deps).order.length ≠ dag.len
  · rw [if_pos e] at h
    obtain ⟨hinv, -⟩ := dag.kahn_keys
    have hmem : ∀ t, t ∈ dag.tasks.keys.filter
        (fun id => !(kahn dag.tasks.keys dag.deps).ordered.contains id) ↔
        t ∈ dag.tasks.keys ∧ t ∉ (kahn dag.tasks.keys dag.deps).ordered := by
      intro t
      rw [List.mem_filter, Bool.not_eq_true', ← Bool.not_eq_true, ExtTreeSet.contains_iff_mem]
    refine ⟨_, (Except.error.inj h).symm, dag.keys_sorted.sublist List.filter_sublist, ?_, hmem⟩
    -- were the path empty, every key would be ordered and the lengths would agree
    intro hnil
    have hall : ∀ t ∈ dag.tasks.keys, t ∈ (kahn dag.tasks.keys dag.deps).order := by
      intro t ht
      by_contra hno
      have hpath := (hmem t).mpr ⟨ht, fun ho => hno ((hinv.mem_order t).mpr ho)⟩
      rw [hnil] at hpath
      exact absurd hpath List.not_mem_nil
    have h1 := (List.subperm_of_subset hinv.nodup hinv.within).length_le
    have h2 := (List.subperm_of_subset (OrdMap.nodup_keys _) hall).length_le
    rw [length_keys] at h1 h2
    exact e (Nat.le_antisymm h1 h2)
  · rw [if_neg e] at h; exact absurd h (by simp)

theorem topologicalOrder_cycle {path : List String}
    (h : dag.topologicalOrder = .error (.cycle path)) :
    Stuck dag.deps {t | t ∈ path} ∧ path ≠ [] ∧ ∀ id ∈ path, id ∈ dag.tasks := by
  obtain ⟨_, hpath, -, hne, hmem⟩ := dag.topologicalOrder_error h
  obtain rfl := DagError.cycle.inj hpath
  refine ⟨?_, hne, fun id hid => mem_keys.mp ((hmem id).mp hid).1⟩
  rw [show {t | t ∈ path} = _ from Set.ext hmem]
  exact dag.kahn_keys.2

theorem not_ordered_of_reachesCycle {id : BacklogTaskId} (h : ReachesCycle dag.deps id) :
    id ∉ (kahn dag.tasks.keys dag.deps).order := fun hid =>
  stuck_reachesCycle.not_listed (fun _ _ => Set.notMem_empty _) dag.kahn_keys.1.legal id hid h

theorem mem_of_cycle {id : BacklogTaskId} (h : TransGen (DependsOn dag.deps) id id) : id ∈ dag.tasks := by
  obtain ⟨_, -, hd⟩ := TransGen.tail'_iff.mp h
  exact dag.deps_mem hd

theorem topologicalOrder_least {order l : List BacklogTaskId} (h : dag.topologicalOrder = .ok order)
    (hperm : l.Perm dag.tasks.keys) (hl : ReadyOrder dag.deps ∅ l) : order ≤ l := by
  obtain ⟨rfl, -, horder⟩ := dag.topologicalOrder_ok h
  have hleast := kahnLoop_least dag.tasks.keys dag.deps (OrdMap.nodup_keys _) dag.tasks.keys.length _
    (kahnInit_inv _ _ (OrdMap.nodup_keys _)) trivial
  have hlt : (fun a b : BacklogTaskId => compare a b = .lt) = (· < ·) := by
    funext a b
    exact propext compare_lt_iff_lt
  rw [hlt] at hleast
  exact le_of_not_gt
    (hleast.not_lex hl (fun a ha => hperm.mem_iff.mp ha) (horder.trans hperm.symm).length_eq.le)

/-- `topological_order` succeeds exactly on the acyclic graphs, with the least legal order of all
tasks; its error lists, in order, the tasks from which a cycle is reachable; no counter is decremented
at zero. -/
theorem topological_order_correct :
    ((∃ order, dag.topologicalOrder = .ok order) ↔ ∀ id, ¬ TransGen (DependsOn dag.deps) id id) ∧
    (∀ order, dag.topologicalOrder = .ok order →
      order.Perm dag.tasks.keys ∧ ReadyOrder dag.deps ∅ order ∧
        ∀ l, l.Perm dag.tasks.keys → ReadyOrder dag.deps ∅ l → order ≤ l) ∧
    (∀ error, dag.topologicalOrder = .error error →
      ∃ path, error = .cycle path ∧ path.Pairwise (· < ·) ∧
        ∀ id, id ∈ path ↔ id ∈ dag.tasks ∧ ReachesCycle dag.deps id) ∧
    kahnChecked dag.tasks.keys dag.deps = some (kahn dag.tasks.keys dag.deps) := by
  have hcyclic : ∀ path id, dag.topologicalOrder = .error (.cycle path) → id ∈ path →
      ReachesCycle dag.deps id := fun path id h hid =>
    (dag.topologicalOrder_cycle h).1.reachesCycle path.finite_toSet hid
  refine ⟨⟨?_, ?_⟩, fun order h => ?_, fun error h => ?_, ?_⟩
  · rintro ⟨order, h⟩ id hid
    obtain ⟨rfl, -, hperm⟩ := dag.topologicalOrder_ok h
    exact dag.not_ordered_of_reachesCycle ⟨id, .refl, hid⟩
      (hperm.mem_iff.mpr (mem_keys.mpr (dag.mem_of_cycle hid)))
  · intro hacyclic
    cases h : dag.topologicalOrder with
    | ok order => exact ⟨order, rfl⟩
    | error =>
      obtain ⟨path, rfl, -, hne, -⟩ := dag.topologicalOrder_error h
      obtain ⟨id, hid⟩ := List.exists_mem_of_ne_nil path hne
      obtain ⟨c, -, hc⟩ := hcyclic path id h hid
      exact absurd hc (hacyclic c)
  · obtain ⟨-, hlegal, hperm⟩ := dag.topologicalOrder_ok h
    exact ⟨hperm, hlegal, fun l hl hready => dag.topologicalOrder_least h hl hready⟩
  · obtain ⟨path, rfl, hsorted, -, hmem⟩ := dag.topologicalOrder_error h
    refine ⟨path, rfl, hsorted, fun id => ⟨fun hid => ⟨?_, hcyclic path id h hid⟩, fun hid => ?_⟩⟩
    · exact mem_keys.mp ((hmem id).mp hid).1
    · refine (hmem id).mpr ⟨mem_keys.mpr hid.1, fun ho => ?_⟩
      exact dag.not_ordered_of_reachesCycle hid.2 ((dag.kahn_keys.1.mem_order id).mpr ho)
  · exact kahnLoop_checked _ _ (OrdMap.nodup_keys _) _ _ (kahnInit_inv _ _ (OrdMap.nodup_keys _))

end TaskDag
end Delivery

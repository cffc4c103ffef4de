import Orchestraitor.Campaign.LoopWalk

/-!
# Every row comes to its end

The accounting of a run (`Books`): each row that the invocation inserted is in a slot, in hand, or was
moved to a terminal status, and each in one way only.  At the end no slot is left, and unless the
starter failed in an odd way or the clock overflowed, no row is left in hand.
-/

namespace Campaign
open Base CallState List

namespace LoopRunStore

def own (store : LoopRunStore) (invocationId : String) : List RunRow :=
  store.rows.filter (·.invocationId == invocationId)

theorem own_map {β : Type} (f : RunRow → β) (store : LoopRunStore) (invocationId : String) :
    (store.own invocationId).map f = ((store.rows.map fun row => (row.invocationId, f row)).filter
        (·.1 == invocationId)).map Prod.snd := by
  rw [filter_map, map_map]
  rfl

theorem own_updateRunning_map {β : Type} (f : RunRow → β) {u : RowUpdate}
    (hf : ∀ row, f (u.set row) = f row)
    (hinv : ∀ row, (u.set row).invocationId = row.invocationId) (store : LoopRunStore)
    (p : RunRow → Bool) (invocationId : String) :
    ((store.updateRunning p u).own invocationId).map f = (store.own invocationId).map f := by
  rw [own_map, own_map, updateRunning_map]
  intro _ _
  rw [hf, hinv]

theorem eq_of_id {store : LoopRunStore} {row row' : RunRow} (h : row ∈ store.rows)
    (h' : row' ∈ store.rows) (hid : row.id = row'.id) : row = row' := by
  have hsorted := store.ids_sorted
  obtain ⟨i, hi, rfl⟩ := getElem_of_mem h
  obtain ⟨j, hj, rfl⟩ := getElem_of_mem h'
  obtain hij | rfl | hij := Nat.lt_trichotomy i j
  · have := pairwise_iff_getElem.mp hsorted i j hi hj hij
    omega
  · rfl
  · have := pairwise_iff_getElem.mp hsorted j i hj hi hij
    omega

theorem finished_status {store : LoopRunStore} {id nowSecs : Nat} {status : RunRowStatus}
    {detail : String} (hrun : store.isRunning id = true) (hstatus : status.isTerminal = true)
    {row : RunRow}
    (hrow : row ∈ (store.updateRunning (·.id == id) (finishUpdate status nowSecs detail)).rows) :
    (row.id = id → row.status.isTerminal = true) ∧ (row.id ≠ id → row ∈ store.rows) := by
  obtain ⟨old, hold, rfl⟩ := mem_map.mp hrow
  split_ifs with hp
  · simp only [Bool.and_eq_true, beq_iff_eq] at hp
    exact ⟨fun _ => hstatus, fun hne => absurd hp.1 hne⟩
  · refine ⟨fun hid => ?_, fun _ => hold⟩
    obtain ⟨running, hmem, hrunning⟩ := any_eq_true.mp hrun
    simp only [Bool.and_eq_true, beq_iff_eq] at hrunning hp
    have := eq_of_id hold hmem (hid.trans hrunning.1.symm)
    exact absurd ⟨hid, this ▸ hrunning.2⟩ hp

end LoopRunStore

/-- every row that was inserted is in a slot, in the hand or moved, and counted once -/
structure Books (r : LoopRunner) (w : World) : Prop where
  own : (w.2.store.own r.invocationId).map (·.id) = w.2.inserted
  accounted : ((w.1.slots.map Slot.row ++ w.1.hand).map Prod.fst ++ w.2.moved).Perm w.2.inserted
  moved : ∀ row ∈ w.2.store.rows, row.id ∈ w.2.moved → row.status.isTerminal = true
  counted : w.1.counted + w.1.pending = w.2.moved.length
  live : w.2.live.Perm (w.1.slots.map (·.process))
  capacity : w.1.slots.length + w.1.hand.length ≤ r.config.maxConcurrentWorkers
  tasks : ((w.2.store.own r.invocationId).map (·.taskId)).Nodup

namespace Books
variable {r : LoopRunner} {law : Seen → (q : Query) → Answer q → Prop} {l l' : Ledger} {k k' : Seen}
  {w w' : World}

theorem inserted_lt (h : Books r (l, k)) {id : Nat} (hid : id ∈ k.inserted) : id < k.store.nextId := by
  rw [← h.own] at hid
  obtain ⟨row, hrow, rfl⟩ := mem_map.mp hid
  exact LoopRunStore.id_lt_nextId (mem_filter.mp hrow).1

theorem mem_inserted (h : Books r (l, k)) {id : Nat} (hid : id ∈ k.moved) : id ∈ k.inserted :=
  h.accounted.mem_iff.mp (mem_append_right _ hid)

theorem of_ledger (h : Books r (l, k)) (hslots : l'.slots.map Slot.key = l.slots.map Slot.key)
    (hhand : l'.hand = l.hand) (hcounted : l'.counted + l'.pending = l.counted + l.pending) :
    Books r (l', k) := by
  have hrows : l'.slots.map Slot.row = l.slots.map Slot.row := by
    have := congrArg (map fun key : Nat × String × Handle => (key.1, key.2.1)) hslots
    rwa [map_map, map_map] at this
  have hprocesses : l'.slots.map (·.process) = l.slots.map (·.process) := by
    have := congrArg (map fun key : Nat × String × Handle => key.2.2) hslots
    rwa [map_map, map_map] at this
  have hlength : l'.slots.length = l.slots.length := by
    simpa only [length_map] using congrArg length hslots
  refine ⟨h.own, ?_, h.moved, hcounted.trans h.counted, ?_, ?_, h.tasks⟩
  · rw [hrows, hhand]
    exact h.accounted
  · rw [hprocesses]
    exact h.live
  · rw [hlength, hhand]
    exact h.capacity

theorem finish {run : Nat × String} {hand : List (Nat × String)} {status : RunRowStatus}
    {nowSecs : Nat} {detail : String} (h : Books r (l, k)) (hhand : l.hand = run :: hand)
    (hrun : k.store.isRunning run.1 = true) (hstatus : status.isTerminal = true)
    (hl : l'.slots = l.slots ∧ l'.hand = hand ∧ l'.counted + l'.pending = l.counted + l.pending + 1)
    (hrows : k'.store.rows =
      (k.store.updateRunning (·.id == run.1) (LoopRunStore.finishUpdate status nowSecs detail)).rows)
    (hk : k'.inserted = k.inserted ∧ k'.moved = k.moved ++ [run.1] ∧ k'.live = k.live) :
    Books r (l', k') := by
  obtain ⟨hslots, hhand', hcounted⟩ := hl
  obtain ⟨hinserted, hmoved, hlive⟩ := hk
  have hown : ∀ {β : Type} (f : RunRow → β),
      (∀ row, f ((LoopRunStore.finishUpdate status nowSecs detail).set row) = f row) →
      (k'.store.own r.invocationId).map f = (k.store.own r.invocationId).map f := by
    intro _ f hf
    rw [LoopRunStore.own, hrows]
    exact LoopRunStore.own_updateRunning_map f hf (fun _ => rfl) k.store _ _
  constructor
  · rw [hown _ fun _ => rfl, h.own, hinserted]
  · have := h.accounted
    simp only [hhand, map_append, append_assoc] at this
    simp only [hslots, hhand', hmoved, hinserted, map_append]
    refine List.Perm.trans ?_ this
    rw [← append_assoc, append_assoc _ (map Prod.fst hand)]
    exact (perm_append_singleton run.1 _).trans perm_middle.symm
  · intro row hrow hid
    rw [hrows] at hrow
    obtain ⟨hsame, hother⟩ := LoopRunStore.finished_status hrun hstatus hrow
    by_cases hrowid : row.id = run.1
    · exact hsame hrowid
    · rw [hmoved] at hid
      refine h.moved row (hother hrowid) ((mem_append.mp hid).resolve_right ?_)
      exact fun hm => hrowid (mem_singleton.mp hm)
  · show l'.counted + l'.pending = k'.moved.length
    rw [hcounted, hmoved, length_append, h.counted]
    rfl
  · show k'.live.Perm (l'.slots.map (·.process))
    rw [hlive, hslots]
    exact h.live
  · have := h.capacity
    simp only [hhand, length_cons] at this
    simp only [hslots, hhand']
    omega
  · rw [hown _ fun _ => rfl]
    exact h.tasks

theorem of_store {store : LoopRunStore} (h : Books r (l, k))
    (hid : (store.own r.invocationId).map (·.id) = (k.store.own r.invocationId).map (·.id))
    (htask : (store.own r.invocationId).map (·.taskId) = (k.store.own r.invocationId).map (·.taskId))
    (hstatus : store.rows.map (fun row => (row.id, row.status)) =
      k.store.rows.map fun row => (row.id, row.status)) : Books r (l, { k with store }) := by
  refine ⟨hid.trans h.own, h.accounted, ?_, h.counted, h.live, h.capacity, htask ▸ h.tasks⟩
  intro _ hrow hmoved
  obtain ⟨old, hold, heq⟩ := mem_map.mp (hstatus ▸ mem_map_of_mem hrow)
  obtain ⟨hid', hst⟩ := Prod.mk.inj heq
  exact hst ▸ h.moved old hold (hid' ▸ hmoved)

theorem take {before after : List Slot} {slot : Slot} (h : Books r (l, k))
    (hs : l.slots = before ++ slot :: after) :
    Books r ({ l with slots := before ++ after, hand := slot.row :: l.hand },
      k.joined slot.process) := by
  have hslots : l.slots.Perm (slot :: (before ++ after)) := hs ▸ perm_middle
  refine ⟨h.own, ?_, h.moved, h.counted, ?_, ?_, h.tasks⟩
  · refine List.Perm.trans (List.Perm.append_right _ (List.Perm.map _ ?_)) h.accounted
    exact perm_middle.trans ((hslots.map Slot.row).append_right l.hand).symm
  · refine (List.Perm.erase slot.process (h.live.trans (hslots.map (·.process)))).trans ?_
    rw [map_cons, erase_cons_head]
  · have := h.capacity
    have hlength := hslots.length_eq
    simp only [length_cons] at this hlength ⊢
    omega

theorem insert {look : Look} {item : ReadyItem} {decisionId : Nat} {ended : PassEnd}
    (h : Books r (l, k)) (hitem : item ∈ look.fresh r l k)
    (hcap : l.slots.length < r.config.maxConcurrentWorkers) (hhand : l.hand = [])
    (hfits : item.number ≤ i64Max ∧ look.now ≤ i64Max) :
    Books r ({ look.passed r l k ended with hand := [(k.store.nextId, item.taskId)] },
      k.after (.insertRun (r.request item decisionId look.now))) := by
  have hown : ((k.store.insert (r.request item decisionId look.now)).own r.invocationId) =
      k.store.own r.invocationId ++ [k.store.newRow (r.request item decisionId look.now)] := by
    show filter _ (k.store.rows ++ [_]) = _
    simp [LoopRunStore.own, LoopRunStore.newRow, LoopRunner.request]
  have hstore : (k.after (.insertRun (r.request item decisionId look.now))).store =
      k.store.insert (r.request item decisionId look.now) := LoopRunStore.exec_insertRun hfits k.store
  constructor
  · show map _ ((k.after _).store.own _) = k.inserted ++ [k.store.nextId]
    rw [hstore, hown, map_append, h.own]
    rfl
  · have := h.accounted
    simp only [hhand, append_nil] at this
    show ((l.slots.map Slot.row ++ [_]).map Prod.fst ++ k.moved).Perm (k.inserted ++ [k.store.nextId])
    refine List.Perm.trans ?_ (this.append_right [k.store.nextId])
    rw [map_append, append_assoc, append_assoc]
    exact perm_append_comm.append_left _
  · intro row hrow hmoved
    rw [hstore] at hrow
    obtain hrow | hrow := mem_append.mp hrow
    · exact h.moved row hrow hmoved
    · obtain rfl := mem_singleton.mp hrow
      exact absurd (h.inserted_lt (h.mem_inserted hmoved)) (Nat.lt_irrefl _)
  · exact h.counted
  · exact h.live
  · exact hcap
  · show (map _ ((k.after _).store.own _)).Nodup
    rw [hstore, hown, map_append]
    refine nodup_append.mpr ⟨h.tasks, nodup_singleton _, ?_⟩
    rintro task htask _ hnew rfl
    obtain rfl := mem_singleton.mp hnew
    obtain ⟨row, hrow, htaskId⟩ := mem_map.mp htask
    obtain ⟨hrow, hinv⟩ := mem_filter.mp hrow
    refine (Look.mem_fresh.mp hitem).2 (mem_exclusions (mem_map.mpr ⟨row, hrow, ?_⟩) _ _)
    exact Prod.ext (by simpa using hinv) htaskId

theorem step (hstep : Step r law w w') (h : Books r w) : Books r w' := by
  cases hstep with
  | read | odd => exact ⟨h.own, h.accounted, h.moved, h.counted, h.live, h.capacity, h.tasks⟩
  | mark hkeys => exact h.of_ledger hkeys rfl rfl
  | @beat l k runId beat nowSecs =>
    show Books r (l, { k with store := (k.store.exec (.heartbeat runId beat nowSecs)).2 })
    obtain hs | hs := k.store.exec_heartbeat runId beat nowSecs
    · rw [hs]
      exact h
    · rw [hs]
      refine h.of_store ?_ ?_ ?_
      · exact LoopRunStore.own_updateRunning_map _ (fun _ => rfl) (fun _ => rfl) ..
      · exact LoopRunStore.own_updateRunning_map _ (fun _ => rfl) (fun _ => rfl) ..
      · exact LoopRunStore.updateRunning_map _ (fun _ _ => rfl) ..
  | take hs => exact h.take hs
  | settle hhand _ hrun hends =>
    exact h.finish hhand hrun (finalStatus_isTerminal hends) ⟨rfl, rfl, (Nat.add_assoc _ _ 1).symm⟩
      (LoopRunStore.settled_rows ..) ⟨rfl, rfl, rfl⟩
  | @count l k n hpending =>
    refine h.of_ledger rfl rfl ?_
    dsimp only
    omega
  | skip | idle => exact h.of_ledger rfl rfl rfl
  | @insert l k look item decisionId hitem hnow hcap hhand hfits => exact h.insert hitem hcap hhand hfits
  | @launch l k slot hand hhand =>
    refine ⟨h.own, ?_, h.moved, h.counted, ?_, ?_, h.tasks⟩
    · have := h.accounted
      simp only [hhand] at this
      refine List.Perm.trans (List.Perm.append_right _ (List.Perm.map _ ?_)) this
      simp
    · simpa using h.live.append_right [slot.process]
    · have := h.capacity
      simp only [hhand, length_cons, length_append, length_nil] at this ⊢
      omega
  | refuse _ _ hhand _ hrun =>
    have hends : RunRowStatus.failed.endsRun = true := rfl
    exact h.finish hhand hrun (finalStatus_isTerminal hends) ⟨rfl, rfl, Nat.add_right_comm ..⟩
      (LoopRunStore.settled_rows ..) ⟨rfl, rfl, rfl⟩
  | @sweep l k run hand stamp hhand hrun hfits =>
    have hstatus : RunRowStatus.abortedShutdown.isTerminal = true := rfl
    have hstore : (k.store.exec (.finish run.1 .abortedShutdown stamp
        "unattributed-drain-abort")).2 = _ := LoopRunStore.exec_finish hstatus hfits hrun
    exact h.finish hhand hrun hstatus ⟨rfl, rfl, Nat.add_right_comm ..⟩
      (congrArg LoopRunStore.rows hstore) ⟨rfl, rfl, rfl⟩

end Books

/-! ## runs -/

def storeSucceeds : Sigma Answer → Bool
  | ⟨.store _, a⟩ => a.reply.isOk
  | _ => true

/-- the starter fails only with spawn failures, and no reading is past the end of the clock -/
def orderly (r : LoopRunner) : Sigma Answer → Bool
  | ⟨.start .., a⟩ => match a.reply with
    | .ok _ | .error (.spawn ..) => true
    | .error _ => false
  | ⟨.now, a⟩ => (r.nowSecs? a.reply).isSome
  | _ => true

/-- nothing out of order has been seen -/
def Seen.Clean (k : Seen) : Prop := k.failed = false ∧ k.overflowed = false ∧ k.oddStart = false

theorem clean_after {r : LoopRunner} {law : Seen → (q : Query) → Answer q → Prop} {k : Seen}
    {l : List (Sigma Answer)} (hk : k.Clean)
    (hl : ∀ e ∈ l, storeSucceeds e = true ∧ orderly r e = true) : ((books r law).after k l).Clean := by
  induction l generalizing k with
  | nil => exact hk
  | cons e l ih =>
    refine ih ?_ fun e' he' => hl e' (mem_cons_of_mem e he')
    obtain ⟨hstore, hordered⟩ := hl e mem_cons_self
    obtain ⟨q, a⟩ := e
    obtain ⟨reply, moment⟩ := a
    obtain ⟨hfailed, hoverflowed, hodd⟩ := hk
    cases q with
    | store =>
      cases reply with
      | ok => exact ⟨hfailed, hoverflowed, hodd⟩
      | error => cases hstore
    | now =>
      refine ⟨hfailed, ?_, hodd⟩
      show (k.overflowed || (r.nowSecs? reply).isNone) = false
      rw [hoverflowed]
      exact Option.isNone_eq_false_iff.mpr hordered
    | start =>
      cases reply with
      | ok => exact ⟨hfailed, hoverflowed, hodd⟩
      | error error =>
        cases error with
        | spawn => exact ⟨hfailed, hoverflowed, hodd⟩
        | store | role | loop => cases hordered
    | _ => exact ⟨hfailed, hoverflowed, hodd⟩

/-- at a moment of the run: workers and running rows within the bound, one row per task -/
structure InFlight (r : LoopRunner) (k : Seen) : Prop where
  workers : k.live.length ≤ r.config.maxConcurrentWorkers
  rows : ((k.store.own r.invocationId).filter (·.status == .running)).length ≤
    r.config.maxConcurrentWorkers
  tasks : ((k.store.own r.invocationId).map (·.taskId)).Nodup

/-- when `run` has returned: every row of the invocation is terminal, and was moved there once -/
structure AllSettled (r : LoopRunner) (k : Seen) : Prop where
  inserted : (k.store.own r.invocationId).map (·.id) = k.inserted
  terminal : ∀ row ∈ k.store.own r.invocationId, row.status.isTerminal = true
  once : ∀ row ∈ k.store.own r.invocationId, k.moved.count row.id = 1

namespace Books
variable {r : LoopRunner} {l : Ledger} {k k' : Seen}

theorem inserted_nodup (h : Books r (l, k)) : k.inserted.Nodup := by
  rw [← h.own]
  refine List.Pairwise.map _ (fun _ _ h => h) ?_
  exact (k.store.ids_sorted.imp Nat.ne_of_lt).filter _

theorem inFlight (h : Books r (l, k')) (hk : k'.shown = k.shown) : InFlight r k := by
  obtain ⟨hrows, hlive, -⟩ := by simpa only [Seen.shown, Prod.mk.injEq] using hk
  have hown : k.store.own r.invocationId = k'.store.own r.invocationId :=
    congrArg (filter _) hrows.symm
  have hcap := h.capacity
  constructor
  · have := h.live.length_eq
    rw [← hlive]
    simp only [length_map] at this hcap ⊢
    omega
  · rw [hown]
    -- a running row is neither moved nor unknown: its id is that of a slot or of a row in hand
    have hsubset : (((k'.store.own r.invocationId).filter (·.status == .running)).map (·.id)) ⊆
        (l.slots.map Slot.row ++ l.hand).map Prod.fst := by
      intro id hid
      obtain ⟨row, hrow, rfl⟩ := mem_map.mp hid
      obtain ⟨hrow, hrunning⟩ := mem_filter.mp hrow
      have hins : row.id ∈ k'.inserted := h.own ▸ mem_map_of_mem hrow
      refine (mem_append.mp (h.accounted.mem_iff.mpr hins)).resolve_right fun hmoved => ?_
      have hterminal := h.moved row (mem_filter.mp hrow).1 hmoved
      rw [beq_iff_eq.mp hrunning] at hterminal
      cases hterminal
    have hnodup : (((k'.store.own r.invocationId).filter (·.status == .running)).map (·.id)).Nodup := by
      refine List.Nodup.sublist ?_ h.inserted_nodup
      rw [← h.own]
      exact filter_sublist.map _
    have := (subperm_of_subset hnodup hsubset).length_le
    simp only [length_map, length_append] at this hcap
    omega
  · rw [hown]
    exact h.tasks

theorem allSettled (h : Books r (l, k)) (hslots : l.slots = []) (hhand : l.hand = []) :
    AllSettled r k := by
  have hmoved : k.moved.Perm k.inserted := by
    simpa only [hslots, hhand, map_nil, nil_append] using h.accounted
  have hmem : ∀ row ∈ k.store.own r.invocationId, row.id ∈ k.moved := fun row hrow =>
    hmoved.mem_iff.mpr (h.own ▸ mem_map_of_mem hrow)
  refine ⟨h.own, fun row hrow => ?_, fun row hrow => ?_⟩
  · exact h.moved row (mem_filter.mp hrow).1 (hmem row hrow)
  · exact count_eq_one_of_mem (hmoved.nodup_iff.mpr h.inserted_nodup) (hmem row hrow)

end Books

/-- In a run whose store calls succeed, whose starter fails only with spawn failures and whose clock
does not overflow, at most `max_concurrent_workers` runs are in flight and no task has two rows, at
every moment; and when the run returns, every row it inserted is terminal, moved there once, and
counted in the summary. -/
theorem rows_all_settled (r : LoopRunner) (store : LoopRunStore)
    (hfresh : store.own r.invocationId = []) {σ : Type} (h : σ → (q : Query) → Answer q × σ) (t : σ)
    (n : Nat) (hserved : (books r fun _ _ _ => True).Expected { store } ((r.run n).trace h t))
    (hsteps : ∀ e ∈ (r.run n).trace h t, storeSucceeds e = true ∧ orderly r e = true) :
    (∀ before, before <+: (r.run n).trace h t →
        InFlight r ((books r fun _ _ _ => True).after { store } before)) ∧
      match ((r.run n).run h t).1 with
      | .inr (.ok summary, _) =>
        AllSettled r ((books r fun _ _ _ => True).after { store } ((r.run n).trace h t)) ∧
          summary.counters.terminal =
            ((books r fun _ _ _ => True).after { store } ((r.run n).trace h t)).inserted.length
      | .inr (.error (.error _), _) =>
        AllSettled r ((books r fun _ _ _ => True).after { store } ((r.run n).trace h t))
      | _ => True := by
  have hbooks : Books r (r.initial.ledger 0 [], { store }) := by
    refine ⟨?_, List.Perm.refl _, nofun, rfl, List.Perm.refl _, Nat.zero_le _, ?_⟩
    · simp [hfresh]
    · simp [hfresh]
  have hreach : ∀ {w}, Reach r (fun _ _ _ => True) (r.initial.ledger 0 [], { store }) w → Books r w :=
    fun hr => hr.invariant (fun _ _ => Books.step) hbooks
  have hclean : ∀ {l}, l <+: (r.run n).trace h t →
      ((books r fun _ _ _ => True).after { store } l).Clean := fun hl =>
    clean_after ⟨rfl, rfl, rfl⟩ fun e he => hsteps e (hl.subset he)
  constructor
  · intro _ hb
    obtain hfailed | ⟨l, k', hr, hk⟩ := run_shown (k := { store }) .refl hserved hb
    · rw [(hclean hb).1] at hfailed
      cases hfailed
    · exact (hreach hr).inFlight hk
  · have hended := run_ended (k := { store }) .refl hserved
    obtain ⟨hfailed, hoverflowed, hodd⟩ := hclean (prefix_refl _)
    revert hended
    generalize (books r fun _ _ _ => True).after { store } ((r.run n).trace h t) = k at *
    rcases ((r.run n).run h t).1 with s | ⟨(e | e) | summary, s⟩
    · exact fun _ => trivial
    · rintro (⟨hf, -⟩ | ⟨l, hr, hslots, -, hhand | hover | ho⟩)
      · rw [hfailed] at hf
        cases hf
      · exact (hreach hr).allSettled hslots hhand
      · rw [hoverflowed] at hover
        cases hover
      · rw [hodd] at ho
        cases ho
    · exact fun _ => trivial
    · rintro ⟨hat, hslots, hcounters⟩
      have hb := hreach hat
      refine ⟨hb.allSettled hslots rfl, ?_⟩
      have hcounted := hb.counted
      have haccounted := hb.accounted.length_eq
      simp only [LoopState.ledger, hslots, map_nil, append_nil, nil_append,
        Nat.add_zero] at hcounted haccounted
      rw [hcounters, hcounted, haccounted]

def secondsScript (i : Nat) : (q : Query) → Answer q
  | .now => ⟨i * 1000000000, ⟨i * 1000000000, 0⟩⟩
  | .isFinished _ => ⟨decide (28 < i), ⟨i * 1000000000, 0⟩⟩
  | q => ⟨calm q, ⟨i * 1000000000, 0⟩⟩

theorem rows_all_settled_solo :
    (((soloRunner.run 12).run (serve secondsScript) (.empty, 0)).1.elim (fun _ => false)
        (·.1.isOk)) = true ∧
      InFlight soloRunner ((books soloRunner fun _ _ _ => True).after { store := .empty }
        ((soloRunner.run 12).trace (serve secondsScript) (.empty, 0))) := by
  have hsteps : ∀ e ∈ (soloRunner.run 12).trace (serve secondsScript) (.empty, 0),
      storeSucceeds e = true ∧ orderly soloRunner e = true := by decide +kernel
  refine ⟨by decide +kernel, ?_⟩
  exact (rows_all_settled soloRunner .empty rfl _ _ 12
    (serve_expected _ (fun _ _ _ => trivial) _ { store := .empty } 0) hsteps).1 _ (prefix_refl _)

def oddScript (_ : Nat) : (q : Query) → Answer q
  | .start .. => ⟨.error (.role "no provider"), ⟨0, 0⟩⟩
  | q => ⟨calm q, ⟨0, 0⟩⟩

/-- Every call of the store succeeds, the run returns with the error of the starter, and the row
inserted for the task stays in status `running`. -/
theorem odd_start_strands_row :
    (∀ e ∈ (soloRunner.run 1).trace (serve oddScript) (.empty, 0), storeSucceeds e = true) ∧
      (((soloRunner.run 1).run (serve oddScript) (.empty, 0)).1.elim (fun _ => none)
        fun ended => match ended.1 with
          | .ok _ => none
          | .error e => some e) = some (.error (.role "no provider")) ∧
      (((soloRunner.run 1).run (serve oddScript) (.empty, 0)).2.1.own "run-1").map (·.status) =
        [.running] := by
  decide +kernel

end Campaign

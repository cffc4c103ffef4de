import Orchestraitor.Campaign.LoopRun

/-!
# What the parts of a run leave alone

The calls that each part of the runner makes, and the cells of the loop that it does not touch.
Supervision and planning change neither the stop nor the drain cells, nor what was seen of the
shutdown channel.
-/

namespace Campaign
open Base CallState LoopRunner Query

/-- the cells that stop the loop -/
structure Cells where
  stop : Option StopReason
  drainReason : Option StopReason
  drainDeadline : Nat
  seenByPass : Nat
  seenByRun : Nat
  signalSourceGone : Bool

def LoopState.cells (s : LoopState) : Cells :=
  { stop := s.stop
    drainReason := s.drainReason
    drainDeadline := s.drainDeadline
    seenByPass := s.seenByPass
    seenByRun := s.seenByRun
    signalSourceGone := s.signalSourceGone }

/-- the calls of supervision -/
def Query.supervises : Query → Prop
  | .now | .store _ | .isFinished _ | .join _ | .abort _ | .beat _ => True
  | _ => False

/-- the calls of planning -/
def Query.plans : Query → Prop
  | .now | .store _ | .dailySpend _ | .record _ | .pendingEvents | .drainEvents _ | .consult _
  | .start .. => True
  | _ => False

/-- the cells and the history are as given -/
def Fixed (c : Cells) (notes : List Note) (s : LoopState) : Prop := s.cells = c ∧ s.notes = notes

/-- what depends on the cells, the history and the slots only -/
def Elsewhere (R : LoopState → Prop) : Prop :=
  ∀ s s' : LoopState, s'.cells = s.cells → s'.notes = s.notes → s'.slots = s.slots → R s → R s'

/-- and keeps when slots are taken away -/
def Shrinking (R : LoopState → Prop) : Prop :=
  ∀ (s s' : LoopState) (slots : List Slot), R s → R s' → slots ⊆ s.slots → R { s' with slots }

variable {r : LoopRunner} {c : Cells} {notes : List Note} {P : Query → Prop} {R : LoopState → Prop}

theorem fixed_elsewhere : Elsewhere (Fixed c notes) := by
  rintro s s' hc hn - ⟨hs, hs'⟩
  exact ⟨hc.trans hs, hn.trans hs'⟩

theorem fixed_shrinking : Shrinking (Fixed c notes) := fun _ _ _ _ h _ => h

theorem stays_elsewhere (hR : Elsewhere R) {f : LoopState → LoopState}
    (hf : ∀ s, (f s).cells = s.cells ∧ (f s).notes = s.notes ∧ (f s).slots = s.slots) :
    (update f : RunM Unit).Stays P R :=
  stays_update fun s h => hR s (f s) (hf s).1 (hf s).2.1 (hf s).2.2 h

theorem stays_call {q : Query} (h : P q) : (call q).Stays P R := fun _ hs => ⟨h, fun _ => hs⟩

variable {α : Type} {e now : Nat} {taskId : String} {snapshot : BoardSnapshot}

theorem stays_callE {x : RunM (Except SqliteError α)} (hx : x.Stays P R) : (callE x).Stays P R := by
  refine hx.bind fun reply => ?_
  cases reply with
  | ok a => exact stays_pure a
  | error => exact stays_fail _

theorem stays_storeCall {op : StoreOp} (h : P (.store op)) : (storeCall op).Stays P R :=
  stays_callE (stays_call h)

theorem stays_addDuration {a b : Nat} : (addDuration a b).Stays P R := by
  unfold addDuration
  split_ifs
  · exact stays_pure _
  · exact stays_fail _

theorem stays_nowSecs : (r.nowSecs e).Stays P R := by
  unfold nowSecs
  split
  · exact stays_pure _
  · exact stays_fail _

theorem stays_of_fixed {x : RunM α} (hx : ∀ c notes, x.Stays P (Fixed c notes))
    (hR : ∀ s s' : LoopState, s'.cells = s.cells → s'.notes = s.notes → R s → R s') : x.Stays P R := by
  intro s hs
  refine (hx s.cells s.notes s ⟨rfl, rfl⟩).mono ?_
  rintro ⟨res, s'⟩ ⟨hc, hn⟩
  exact hR s s' hc hn hs

/-! ## supervision -/

theorem recordTaskOutcome_stays {cls : String} {status : RunRowStatus} {noProgress : Bool}
    (hP : ∀ op, P (.store op)) :
    (r.recordTaskOutcome taskId status cls noProgress now).Stays P R := by
  cases status with
  | completed => exact (stays_storeCall (hP _)).bind fun _ => stays_pure _
  | failed | stalled | timedOut =>
    refine (stays_storeCall (hP _)).bind fun _ => ?_
    split_ifs
    · exact stays_pure _
    · refine (stays_storeCall (hP _)).bind fun state => ?_
      split_ifs <;> exact stays_pure _
  | abortedShutdown | stuck | running | orphaned | paused => exact stays_pure _

theorem settle_stays {runId : Nat} {detail : String} {status : RunRowStatus} {cls : String × Bool}
    (hP : ∀ op, P (.store op)) : (r.settle runId taskId status cls now detail).Stays P R := by
  refine (recordTaskOutcome_stays hP).bind fun _ => ?_
  exact (stays_storeCall (hP _)).bind fun _ => stays_pure _

theorem reapOne_stays {slot : Slot} : (r.reapOne slot).Stays supervises R := by
  unfold reapOne
  refine (stays_call trivial).bind fun outcome => ?_
  obtain ⟨status, detail, completed⟩ := arbitrate outcome slot.intent
  refine (stays_call trivial).bind fun e => stays_nowSecs.bind fun now => ?_
  exact (settle_stays fun _ => trivial).bind fun final => stays_pure _

theorem reapFrom_stays {slots : List Slot}
    (hR : ∀ (s : LoopState) (slots' : List Slot), slots' ⊆ slots → R s → R { s with slots := slots' })
    (kept rest : List Slot) (hslots : kept ++ rest ⊆ slots) :
    (r.reapFrom kept rest).Stays supervises R := by
  induction rest generalizing kept with
  | nil => exact stays_pure _
  | cons _ rest ih =>
    refine (stays_call trivial).bind fun finished => ?_
    cases finished with
    | false =>
      refine ih _ fun x hx => hslots ?_
      simpa using hx
    | true =>
      have hless : kept ++ rest ⊆ slots := fun x hx => hslots <|
        (List.mem_append.mp hx).elim (List.mem_append_left _)
          fun hx => List.mem_append_right _ (List.mem_cons_of_mem _ hx)
      refine Stays.bind (stays_update fun s h => hR s _ hless h) fun _ => ?_
      exact reapOne_stays.bind fun reaped => (ih _ hless).bind fun others => stays_pure _

theorem recordReaps_stays (hE : Elsewhere R) (hS : Shrinking R) :
    r.recordReaps.Stays supervises R := by
  have hreap : r.reapFinished.Stays supervises R := fun s hs =>
    reapFrom_stays (fun s' slots hsub h => hS s s' slots hs h hsub) [] s.slots (List.Subset.refl _) s hs
  refine hreap.bind fun results => stays_forEach (fun reaped => ?_) results
  exact stays_elsewhere hE fun _ => ⟨rfl, rfl, rfl⟩

theorem killWhere_stays {p : Slot → Nat → Bool} {intent : StopIntent} :
    (killWhere p intent).Stays supervises (Fixed c notes) := by
  refine (stays_call trivial).bind fun e => stays_get.bind fun s => ?_
  refine Stays.bind (stays_update fun _ h => h) fun _ => stays_forEach (fun slot => ?_) _
  exact (stays_call trivial).bind fun _ => stays_pure _

theorem freshBeats_stays (slots : List Slot) : (freshBeats e slots).Stays supervises R := by
  induction slots with
  | nil => exact stays_pure _
  | cons _ _ ih =>
    refine (stays_call trivial).bind fun fresh => ih.bind fun res => ?_
    cases fresh <;> exact stays_pure _

theorem supervise_stays : r.supervise.Stays supervises (Fixed c notes) := by
  refine (recordReaps_stays fixed_elsewhere fixed_shrinking).bind fun _ => ?_
  refine (stays_call trivial).bind fun e => ?_
  refine stays_get.bind fun s => (freshBeats_stays s.slots).bind fun res => ?_
  refine Stays.bind (stays_update fun _ h => h) fun _ => stays_nowSecs.bind fun now => ?_
  refine (stays_forEach (fun _ => stays_storeCall trivial) _).bind fun _ => ?_
  exact killWhere_stays.bind fun _ => killWhere_stays.bind fun _ =>
    recordReaps_stays fixed_elsewhere fixed_shrinking

theorem sweep_stays : r.sweep.Stays supervises (Fixed c notes) := by
  refine killWhere_stays.bind fun _ => stays_get.bind fun s => ?_
  refine Stays.bind (stays_update fun _ h => h) fun _ => stays_forEach (fun slot => ?_) s.slots
  refine (stays_call trivial).bind fun _ => (stays_call trivial).bind fun e => ?_
  exact (stays_call trivial).bind fun _ => stays_update fun _ h => h

/-! ## planning -/

theorem paceNoSpawn_stays (hR : Elsewhere R) : (r.paceNoSpawn e).Stays P R := by
  refine stays_get.bind fun s => ?_
  refine Stays.bind (stays_elsewhere hR fun _ => ⟨rfl, rfl, rfl⟩) fun _ => ?_
  refine Stays.bind (stays_elsewhere hR fun _ => ⟨rfl, rfl, rfl⟩) fun _ => ?_
  exact stays_elsewhere hR fun _ => ⟨rfl, rfl, rfl⟩

theorem excludedTasks_stays : (r.excludedTasks now).Stays plans R := by
  refine stays_get.bind fun s => (stays_storeCall trivial).bind fun rows => ?_
  dsimp only
  split_ifs
  · exact (stays_storeCall trivial).bind fun states => stays_pure _
  · exact stays_pure _

theorem kickoffGate_stays {excluded : List String} (hR : Elsewhere R) :
    (r.kickoffGate now snapshot excluded).Stays plans R := by
  have hpeek : r.peekEvents.Stays plans R := by
    refine stays_get.bind fun s => ?_
    split_ifs
    · exact stays_call trivial
    · exact stays_pure _
  have hreset : (budgetWindowReset now).Stays plans R :=
    stays_get.bind fun s =>
      Stays.bind (stays_elsewhere hR fun _ => ⟨rfl, rfl, rfl⟩) fun _ => stays_pure _
  refine stays_get.bind fun s => hpeek.bind fun peeked => hreset.bind fun reset => ?_
  refine Stays.bind (stays_elsewhere hR fun _ => ⟨rfl, rfl, rfl⟩) fun _ => ?_
  split_ifs <;> exact stays_pure _

theorem recordKickoffSkip_stays {observation : KickoffObservation}
    {budgetSkips : List (String × TaskSkipReason)} (hR : Elsewhere R) :
    (r.recordKickoffSkip e observation budgetSkips).Stays plans R := by
  refine (stays_callE (stays_call trivial)).bind fun _ => ?_
  refine Stays.bind (stays_elsewhere hR fun _ => ⟨rfl, rfl, rfl⟩) fun _ => ?_
  refine Stays.bind (stays_elsewhere hR fun _ => ⟨rfl, rfl, rfl⟩) fun _ => ?_
  exact paceNoSpawn_stays hR

theorem planPass_stays {budgetSkips : List (String × TaskSkipReason)} :
    (r.planPass snapshot budgetSkips).Stays plans R := by
  have hconsult : ∀ ids, (r.consultTaskSelection ids).Stays plans R := by
    intro _
    unfold consultTaskSelection
    split
    · exact stays_pure _
    · split_ifs
      · exact stays_pure _
      · exact (stays_call trivial).bind fun result => stays_pure _
  refine (hconsult _).bind fun consulted => ?_
  exact (stays_callE (stays_call trivial)).bind fun _ => stays_pure _

theorem spawnFailed_stays {runId : Nat} {message : String} (hR : Elsewhere R) :
    (r.spawnFailed runId taskId message now).Stays plans R := by
  refine (settle_stays fun _ => trivial).bind fun final => ?_
  refine Stays.bind (stays_elsewhere hR fun _ => ⟨rfl, rfl, rfl⟩) fun _ => ?_
  exact (stays_call trivial).bind fun e => paceNoSpawn_stays hR

theorem startRow_stays {request : StartRun} : (startRow request).Stays plans R :=
  (stays_storeCall trivial).bind fun _ => stays_storeCall trivial

theorem drainPeeked_stays {ids : List String} : (r.drainPeeked ids).Stays plans R := by
  unfold drainPeeked
  split_ifs
  · exact (stays_call trivial).bind fun _ => stays_pure _
  · exact stays_pure _

/-- what planning keeps: also a note of the pass and a slot for its worker -/
structure Planned (R : LoopState → Prop) : Prop where
  elsewhere : Elsewhere R
  note : ∀ (s : LoopState) ready excluded ended, R s →
    R { s with notes := s.notes ++ [.pass ready excluded ended] }
  slot : ∀ (s : LoopState) (slot : Slot), slot.intent = none → R s → R (LoopRunner.addSlot slot s)

theorem spawnSelected_stays {decisionId : Nat} {selected : SelectedTask}
    {ready excluded : List String} {ended : PassEnd} (hR : Planned R) :
    (r.spawnSelected decisionId selected e now (.pass ready excluded ended)).Stays plans R := by
  refine (stays_callE (stays_call trivial)).bind fun spend => startRow_stays.bind fun row => ?_
  refine Stays.bind (stays_update fun s h => hR.note s _ _ _ h) fun _ => ?_
  refine (stays_call trivial).bind fun reply => ?_
  cases reply with
  | ok => exact stays_update fun s h => hR.slot s _ rfl h
  | error error =>
    cases error with
    | spawn => exact spawnFailed_stays hR.elsewhere
    | store | role | loop => exact stays_fail _

theorem planAndSpawn_stays (hR : Planned R) : (r.planAndSpawn e now snapshot).Stays plans R := by
  refine excludedTasks_stays.bind fun exclusions => ?_
  refine Stays.bind (stays_elsewhere hR.elsewhere fun _ => ⟨rfl, rfl, rfl⟩) fun _ => ?_
  refine (kickoffGate_stays hR.elsewhere).bind fun gate => ?_
  cases gate with
  | skipped =>
    refine Stays.bind (stays_update fun s h => hR.note s _ _ _ h) fun _ => ?_
    exact recordKickoffSkip_stays hR.elsewhere
  | proceed =>
    refine planPass_stays.bind fun planned => ?_
    refine Stays.bind (stays_elsewhere hR.elsewhere fun _ => ⟨rfl, rfl, rfl⟩) fun _ => ?_
    refine drainPeeked_stays.bind fun _ => ?_
    cases planned.2.selected with
    | some => exact spawnSelected_stays hR
    | none =>
      refine Stays.bind (stays_update fun s h => hR.note s _ _ _ h) fun _ => ?_
      exact paceNoSpawn_stays hR.elsewhere

/-! ## the pass -/

def Note.ready? : Note → Option (List String)
  | .pass ready _ _ => some ready
  | .stopped ready => some ready
  | _ => none

def LoopState.polled (s : LoopState) : List (List String) := s.notes.filterMap (·.ready?)

theorem polled_note {s : LoopState} {m : Note} :
    ({ s with notes := s.notes ++ [m] } : LoopState).polled = s.polled ++ m.ready?.toList := by
  unfold LoopState.polled
  cases h : m.ready? <;> simp [h]

/-- the cells and the ready queues polled so far -/
def Held (c : Cells) (v : List (List String)) (s : LoopState) : Prop := s.cells = c ∧ s.polled = v

theorem stays_held {x : RunM α} (hx : ∀ c notes, x.Stays P (Fixed c notes)) (c : Cells)
    (v : List (List String)) : x.Stays P (Held c v) := by
  refine stays_of_fixed hx ?_
  rintro s s' hc hn ⟨hs, hv⟩
  exact ⟨hc.trans hs, by rw [LoopState.polled, hn]; exact hv⟩

theorem Held.note {s : LoopState} {m : Note} {v : List (List String)} (h : Held c v s) :
    Held c (v ++ m.ready?.toList) { s with notes := s.notes ++ [m] } :=
  ⟨h.1, by rw [polled_note, h.2]⟩

/-- what holds through every call of planning -/
def Through {κ : Type} (m : Calls.Monitor Answer κ) (J : κ → Prop) : Prop :=
  ∀ k q, J k → q.plans → m.permits k q ∧ ∀ a, m.expects k q a → J (m.next k q a)

section planning
variable {κ : Type} {m : Calls.Monitor Answer κ} {J : κ → Prop} {s : LoopState} {k : κ}
  {v : List (List String)} {ready : List String} {α β : Type}

abbrev Plans (m : Calls.Monitor Answer κ) (J : κ → Prop) (c : Cells) (v : List (List String))
    (ready : List String) (x : RunM α) (s : LoopState) (k : κ) : Prop :=
  x.Meets m (fun _ s' k' => Held c (v ++ [ready]) s' ∧ J k')
    (fun _ s' k' => (Held c v s' ∨ Held c (v ++ [ready]) s') ∧ J k') s k

theorem Plans.bind {x : RunM β} {f : β → RunM α} (hm : Through m J)
    (hx : ∀ c notes, x.Stays plans (Fixed c notes))
    (hf : ∀ b s k, Held c v s → J k → Plans m J c v ready (f b) s k) (hs : Held c v s) (hk : J k) :
    Plans m J c v ready (x >>= f) s k := by
  refine meets_bind.mpr (((stays_held hx c v).meets hm hs hk).mono ?_ ?_)
  · rintro b s' k' ⟨hs', hk'⟩
    exact hf b s' k' hs' hk'
  · rintro e s' k' ⟨hs', hk'⟩
    exact ⟨.inl hs', hk'⟩

theorem plans_note {x : RunM α} {excluded : List String} {ended : PassEnd} (hm : Through m J)
    (hx : ∀ c notes, x.Stays plans (Fixed c notes)) (hs : Held c v s) (hk : J k) :
    Plans m J c v ready (do note (.pass ready excluded ended); x) s k := by
  have hnoted : Held c (v ++ [ready])
    { s with notes := s.notes ++ [.pass ready excluded ended] } := hs.note
  unfold Plans note
  rw [meets_bind, meets_update]
  exact ((stays_held hx c (v ++ [ready])).meets hm hnoted hk).mono (fun _ _ _ h => h)
    fun _ _ _ h => ⟨.inr h.1, h.2⟩

theorem spawnSelected_plans {decisionId e now : Nat} {selected : SelectedTask}
    {excluded : List String} {ended : PassEnd} (hm : Through m J) (hs : Held c v s) (hk : J k) :
    Plans m J c v ready
      (r.spawnSelected decisionId selected e now (.pass ready excluded ended)) s k := by
  refine Plans.bind hm (fun _ _ => stays_callE (stays_call trivial)) (fun spend s k hs hk => ?_) hs hk
  refine Plans.bind hm (fun _ _ => startRow_stays) (fun row s k hs hk => ?_) hs hk
  refine plans_note hm ?_ hs hk
  intro _ _
  refine (stays_call trivial).bind fun reply => ?_
  cases reply with
  | ok => exact stays_update fun _ h => h
  | error error =>
    cases error with
    | spawn => exact spawnFailed_stays fixed_elsewhere
    | store | role | loop => exact stays_fail _

theorem planAndSpawn_plans {e now : Nat} {snapshot : BoardSnapshot} (hm : Through m J)
    (hs : Held c v s) (hk : J k) :
    Plans m J c v (snapshot.ready.map (·.taskId)) (r.planAndSpawn e now snapshot) s k := by
  refine Plans.bind hm (fun _ _ => excludedTasks_stays) (fun exclusions s k hs hk => ?_) hs hk
  refine Plans.bind hm (fun _ _ => stays_update fun _ h => h) (fun _ s k hs hk => ?_) hs hk
  refine Plans.bind hm (fun _ _ => kickoffGate_stays fixed_elsewhere) (fun gate s k hs hk => ?_) hs hk
  cases gate with
  | skipped => exact plans_note hm (fun _ _ => recordKickoffSkip_stays fixed_elsewhere) hs hk
  | proceed =>
    refine Plans.bind hm (fun _ _ => planPass_stays) (fun planned s k hs hk => ?_) hs hk
    refine Plans.bind hm (fun _ _ => stays_update fun _ h => h) (fun _ s k hs hk => ?_) hs hk
    refine Plans.bind hm (fun _ _ => drainPeeked_stays) (fun _ s k hs hk => ?_) hs hk
    cases planned.2.selected with
    | some => exact spawnSelected_plans hm hs hk
    | none => exact plans_note hm (fun _ _ => paceNoSpawn_stays fixed_elsewhere) hs hk

end planning

/-! ## drain and signals -/

/-- the calls of the wait at the end of a round -/
def Query.waits : Query → Prop
  | .tick .. | .sleep _ | .borrowAndUpdate | .now => True
  | _ => False

def Sealing (v : List (List String)) (s : LoopState) : Prop :=
  s.polled = v ∧ (s.stop = none → s.seenByPass = 0)

section sealing
variable {v : List (List String)}

theorem stays_sealing {α : Type} {x : RunM α} (hx : ∀ c notes, x.Stays P (Fixed c notes)) :
    x.Stays P (Sealing v) := by
  refine stays_of_fixed hx ?_
  rintro s s' hc hn ⟨hv, hseen⟩
  refine ⟨by rw [LoopState.polled, hn]; exact hv, ?_⟩
  have hstop : s'.stop = s.stop := congrArg Cells.stop hc
  have hseen' : s'.seenByPass = s.seenByPass := congrArg Cells.seenByPass hc
  rw [hstop, hseen']
  exact hseen

theorem note_sealing {m : Note} (hm : m.ready? = none) : (note m).Stays P (Sealing v) := by
  refine stays_update ?_
  rintro s ⟨hv, hseen⟩
  exact ⟨by rw [polled_note, hm, Option.toList_none, List.append_nil, hv], hseen⟩

theorem drainStep_sealing : r.drainStep.Stays supervises (Sealing v) := by
  refine (stays_call trivial).bind fun e => stays_get.bind fun s => ?_
  have hnote : ∀ d, (do
      let s' ← get
      note (.drain e d (spared s'))).Stays supervises (Sealing v) :=
    fun d => stays_get.bind fun s' => note_sealing rfl
  split_ifs
  · refine (stays_sealing fun _ _ => killWhere_stays).bind fun _ => ?_
    refine (stays_sealing fun _ _ => recordReaps_stays fixed_elsewhere fixed_shrinking).bind fun _ => ?_
    refine stays_get.bind fun s' => ?_
    split_ifs
    · refine stays_addDuration.bind fun d => Stays.bind (stays_update fun _ h => h) fun _ => hnote _
    · exact hnote _
  · exact hnote _

theorem applySignal_sealing {e : Nat} : (r.applySignal e).Stays P (Sealing v) := by
  have hdeadline : ∀ g : Nat → LoopState → LoopState, (∀ d s, Sealing v s → Sealing v (g d s)) →
      (do
        update convergeDrain
        let deadline ← addDuration e r.config.shutdownBudget
        update (g deadline)
        pure .begin : RunM LoopRunner.SignalEffect).Stays P (Sealing v) := by
    intro g hg
    refine Stays.bind (stays_update fun _ h => h) fun _ => stays_addDuration.bind fun d => ?_
    exact (stays_update (hg d)).bind fun _ => stays_pure _
  refine stays_get.bind fun s => ?_
  split
  · exact Stays.bind (stays_update fun _ h => h) fun _ => stays_pure _
  · exact hdeadline (fun d s => { s with drainDeadline := min s.drainDeadline d }) fun _ _ h => h
  · exact hdeadline (fun d s => { s with drainDeadline := d }) fun _ _ h => h

theorem waitTick_sealing : r.waitTick.Stays waits (Sealing v) := by
  refine stays_get.bind fun s => (stays_call trivial).bind fun ended => ?_
  cases ended with
  | elapsed => exact stays_pure _
  | sourceGone => exact stays_update fun _ h => h
  | changed =>
    refine (stays_call trivial).bind fun seen => Stays.bind (stays_update fun _ h => h) fun _ => ?_
    refine (stays_call trivial).bind fun e => applySignal_sealing.bind fun effect => ?_
    cases effect with
    | shortCircuit => exact stays_get.bind fun s' => note_sealing rfl
    | begin =>
      refine Stays.bind (stays_update ?_) fun _ => stays_get.bind fun s' => note_sealing rfl
      intro s hs
      split
      · exact ⟨hs.1, nofun⟩
      · exact hs

theorem waitRound_sealing : r.waitRound.Stays waits (Sealing v) := by
  refine stays_get.bind fun s => ?_
  split_ifs
  · exact (stays_call trivial).bind fun _ => stays_pure _
  · exact waitTick_sealing

theorem declareStop_sealing {reason : StopReason} {e : Nat} :
    (r.declareStop reason e).Stays P (Sealing v) :=
  stays_addDuration.bind fun _ => stays_update fun _ h => ⟨h.1, nofun⟩

theorem shutdownFromPass_sealing (hP : P .now) : r.shutdownFromPass.Stays P (Sealing v) := by
  refine stays_get.bind fun s => (stays_call hP).bind fun e => declareStop_sealing.bind fun _ => ?_
  exact stays_get.bind fun s' => note_sealing rfl

theorem shutdownFromPass_meets {κ : Type} {m : Calls.Monitor Answer κ} {J : κ → Prop} {s : LoopState}
    {k : κ} (hm : ∀ k, J k → m.permits k .now ∧ ∀ a, m.expects k .now a → J (m.next k .now a))
    (hs : s.polled = v) (hk : J k) : r.shutdownFromPass.Meets m (fun _ s' k' => Sealing v s' ∧ J k')
      (fun _ s' k' => s'.polled = v ∧ J k') s k := by
  unfold shutdownFromPass declareStop addDuration
  rw [meets_bind, meets_get, meets_bind]
  refine meets_call.mpr ⟨(hm k hk).1, fun a ha => ?_⟩
  split_ifs
  · exact ⟨⟨polled_note.trans ((List.append_nil _).trans hs), nofun⟩, (hm k hk).2 a ha⟩
  · exact ⟨hs, (hm k hk).2 a ha⟩

end sealing

/-! ## an invariant of the rounds -/

def Query.isCommon (q : Query) : Prop := q.supervises ∨ q.waits ∨ ∃ now, q = .dailySpend now

section rounds
variable {κ : Type} {m : Calls.Monitor Answer κ} {I : LoopState → κ → Prop} {E : LoopState → κ → Prop}
  {s : LoopState} {k : κ} {e now : Nat}

/-- the cells and the history decide, and calls of this kind keep it -/
structure Lasts (m : Calls.Monitor Answer κ) (P : Query → Prop) (I : LoopState → κ → Prop) : Prop where
  frame : ∀ {s s' : LoopState} {k}, s'.cells = s.cells → s'.notes = s.notes → I s k → I s' k
  call : ∀ {s k q}, I s k → P q → m.permits k q ∧ ∀ a, m.expects k q a → I s (m.next k q a)

theorem Lasts.meets {P : Query → Prop} (h : Lasts m P I) {α : Type} {x : RunM α}
    (hx : ∀ c notes, x.Stays P (Fixed c notes)) (hI : I s k) :
    x.Meets m (fun _ s' k' => s'.cells = s.cells ∧ I s' k') (fun _ => I) s k := by
  refine ((hx s.cells s.notes).meets (J := I s) (fun _ _ hk hq => h.call hk hq) ⟨rfl, rfl⟩ hI).mono ?_ ?_
  · rintro _ s' k' ⟨⟨hc, hn⟩, hk'⟩
    exact ⟨hc, h.frame hc hn hk'⟩
  · rintro _ s' k' ⟨⟨hc, hn⟩, hk'⟩
    exact h.frame hc hn hk'

/-- what the parts of a round make of an invariant `I`, and of `E` when they fail -/
structure RoundRules (r : LoopRunner) (m : Calls.Monitor Answer κ) (I E : LoopState → κ → Prop) : Prop
    extends Lasts m isCommon I where
  err : ∀ {s k}, I s k → E s k
  seen : ∀ {s k} seen, I s k → I { s with seenByRun := seen } k
  stop : ∀ {s k} reason e, I s k → s.stop = none →
    (r.declareStop reason e).Meets m (fun _ => I) (fun _ => E) s k
  cap : ∀ {s k}, I s k → s.stop = none → I { s with
    stop := some .spendSoftCap, drainReason := some .spendSoftCap, drainDeadline := durationMax } k
  shutdown : ∀ {s k} seen, I s k → s.stop = none →
    r.shutdownFromPass.Meets m (fun _ => I) (fun _ => E) { s with seenByPass := seen } k
  drain : ∀ {s k}, I s k → s.stop.isSome = true → r.drainStep.Meets m (fun _ => I) (fun _ => E) s k
  wait : ∀ {s k}, I s k → r.waitRound.Meets m (fun _ => I) (fun _ => E) s k
  poll : ∀ {s k} budgetLeft, I s k → s.stop = none → m.permits k (.poll budgetLeft s.seenByPass) ∧
    ∀ a, m.expects k (.poll budgetLeft s.seenByPass) a → match a.reply with
      | .snapshot snapshot => (r.afterSnapshot snapshot).Meets m (fun _ => I) (fun _ => E) s (m.next k _ a)
      | _ => I s (m.next k _ a)

variable (rules : RoundRules r m I E)
include rules

theorem RoundRules.bind {α β : Type} {x : RunM β} {f : β → RunM α}
    (hx : ∀ c notes, x.Stays isCommon (Fixed c notes)) (hI : I s k)
    (hf : ∀ b s' k', s'.cells = s.cells → I s' k' → (f b).Meets m (fun _ => I) (fun _ => E) s' k') :
    (x >>= f).Meets m (fun _ => I) (fun _ => E) s k :=
  meets_bind.mpr ((rules.meets hx hI).mono (fun b s' k' h => hf b s' k' h.1 h.2) fun _ _ _ h => rules.err h)

theorem pass_meets (hI : I s k) (hs : s.stop = none) :
    (r.pass e).Meets m (fun _ => I) (fun _ => E) s k := by
  unfold LoopRunner.pass
  rw [meets_bind, meets_get]
  split_ifs
  · exact hI
  refine rules.bind (fun _ _ => stays_update fun _ h => h) hI fun _ s1 k1 hc1 hI1 => ?_
  refine rules.bind (fun _ _ => stays_call (.inl trivial)) hI1 fun before s2 k2 hc2 hI2 => ?_
  have hcells := hc2.trans hc1
  have hnone : s2.stop = none := (congrArg Cells.stop hcells).trans hs
  rw [← show s2.seenByPass = s.seenByPass from congrArg Cells.seenByPass hcells, meets_bind]
  obtain ⟨hpermits, hpolled⟩ := rules.poll _ hI2 hnone
  refine meets_call.mpr ⟨hpermits, fun a ha => ?_⟩
  have hI3 := hpolled a ha
  obtain ⟨polled, moment⟩ := a
  cases polled with
  | snapshot => exact hI3
  | pollFailed =>
    refine rules.bind (fun _ _ => stays_update fun _ h => h) hI3 fun _ s3 k3 _ hI3 => ?_
    refine rules.bind (fun _ _ => stays_call (.inl trivial)) hI3 fun e' s4 k4 _ hI4 => ?_
    exact rules.bind (fun _ _ => paceNoSpawn_stays fixed_elsewhere) hI4 fun _ _ _ _ h => h
  | shutdown =>
    refine rules.bind (fun _ _ => stays_call (.inr (.inl trivial))) hI3 fun seen s3 k3 hc3 hI3 => ?_
    rw [meets_bind, meets_update, meets_bind]
    exact rules.shutdown seen hI3 ((congrArg Cells.stop hc3).trans hnone)
  | budgetExpired =>
    refine rules.bind (fun _ _ => stays_call (.inl trivial)) hI3 fun e' s3 k3 hc3 hI3 => ?_
    exact meets_bind.mpr (rules.stop _ _ hI3 ((congrArg Cells.stop hc3).trans hnone))

theorem proceed_meets (hI : I s k) (hs : s.stop = none) :
    (r.proceed e now).Meets m (fun _ => I) (fun _ => E) s k := by
  unfold LoopRunner.proceed
  split_ifs
  · exact rules.stop _ _ hI hs
  refine rules.bind (fun _ _ => stays_callE (stays_call (.inr (.inr ⟨_, rfl⟩)))) hI fun _ s1 k1 hc1 hI1 => ?_
  have hs1 : s1.stop = none := (congrArg Cells.stop hc1).trans hs
  split_ifs
  · exact rules.cap hI1 hs1
  rw [meets_bind, meets_get]
  split_ifs
  · exact rules.stop _ _ hI1 hs1
  rw [meets_bind]
  refine (pass_meets rules hI1 hs1).mono ?_ fun _ _ _ h => h
  intro consumed s2 k2 hI2
  cases consumed with
  | false => exact hI2
  | true =>
    refine rules.bind (fun _ _ => stays_call (.inr (.inl trivial))) hI2 fun seen s3 k3 _ hI3 => ?_
    exact rules.seen seen hI3

theorem round_meets_of_rules (hI : I s k) : r.round.Meets m (fun _ => I) (fun _ => E) s k := by
  have hwait : ∀ {s k}, I s k →
      (do r.waitRound; pure false : RunM Bool).Meets m (fun _ => I) (fun _ => E) s k :=
    fun hI => meets_bind.mpr (rules.wait hI)
  refine rules.bind (fun _ _ => stays_call (.inl trivial)) hI fun e s1 k1 _ hI1 => ?_
  refine rules.bind (fun _ _ => stays_nowSecs) hI1 fun now s2 k2 _ hI2 => ?_
  refine rules.bind (fun _ _ => supervise_stays.weaken fun _ => .inl) hI2 fun _ s3 k3 _ hI3 => ?_
  rw [meets_bind, meets_get]
  split_ifs with hstop
  · rw [meets_bind]
    refine (rules.drain hI3 hstop).mono (fun _ s4 k4 hI4 => ?_) fun _ _ _ h => h
    rw [meets_bind, meets_get]
    split_ifs
    · exact hI4
    · exact hwait hI4
  · rw [meets_bind]
    refine (proceed_meets rules hI3 (by simpa using hstop)).mono (fun _ _ _ h => hwait h) fun _ _ _ h => h

end rounds

def Ends {κ : Type} (D E : LoopState → κ → Prop) : Except Fatal Unit → LoopState → κ → Prop
  | .ok () => D
  | .error _ => E

theorem conclude_meets_of_lasts {κ : Type} {m : Calls.Monitor Answer κ} {D E : LoopState → κ → Prop}
    {s : LoopState} {k : κ} {result : Except Fatal Unit} (hD : Lasts m supervises D)
    (hE : Lasts m supervises E) (h : Ends D E result s k) :
    (r.conclude result).Meets m (fun _ => D) (fun _ => E) s k := by
  unfold LoopRunner.conclude
  cases result with
  | ok =>
    obtain ⟨hpermits, hnext⟩ := hD.call (q := .now) h trivial
    exact meets_bind.mpr (meets_call.mpr ⟨hpermits, hnext⟩)
  | error e =>
    cases e with
    | panicked => exact h
    | error =>
      rw [meets_bind, meets_get]
      split_ifs
      · rw [meets_bind]
        exact (hE.meets (fun _ _ => sweep_stays) h).mono (fun _ _ _ h => h.2) fun _ _ _ h => h
      · exact h

end Campaign

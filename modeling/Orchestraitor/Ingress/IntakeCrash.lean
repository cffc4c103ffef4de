import Orchestraitor.Ingress.Intake

/-!
# What a crash leaves of the intake lane

A batch leaves the store before its first event is processed, so what the loop holds in memory is the only
copy.  As long as no crash finds an event there, an event that was put is in the store, in the hand of the
loop or ended (`held_run`), and from the store it comes to its end (`ends_of_ticks`).
-/

namespace Ingress
open Base List

def Hand.keys : Hand → List String
  | .idle => []
  | .processing todo outcome => (todo ++ outcome.failedEvents).map (·.deliveryKey)
  | .retrying left => left.map (·.deliveryKey)

/-- in the store, or attached or decided -/
def Kept (d : Daemon) (key : String) : Prop := key ∈ d.store.keys ∨ key ∈ d.ended

/-- or in the hand of the loop -/
def Held (d : Daemon) (key : String) : Prop := Kept d key ∨ key ∈ d.hand.keys

/-- no crash comes while the loop holds an event that is not ended -/
def CrashesEmptyHanded (attacher : IntakeAttacher) (d : Daemon) (acts : List Act) : Prop :=
  ∀ before after, acts = before ++ .crash :: after → (d.run attacher before).hand.keys = []

section
variable {attacher : IntakeAttacher} {d : Daemon} {key : String}

variable {store : IntakeStore} {event : IngressEvent} {acts : List Act} {row : IntakeRow}
  {before after : List IntakeRow}

theorem mem_put_keys :
    key ∈ (store.put event).keys ↔ key = event.deliveryKey ∨ key ∈ store.keys := by
  unfold IntakeStore.put
  split_ifs with h
  · constructor
    · exact .inr
    · rintro (rfl | hkey)
      · exact h
      · exact hkey
  · have hperm : (store.rows.orderedInsert IntakeRow.precedes (.ofEvent event)).map (·.deliveryKey)
        |>.Perm (event.deliveryKey :: store.keys) :=
      (perm_orderedInsert _ _ _).map _
    exact hperm.mem_iff.trans mem_cons

theorem take_rows (store : IntakeStore) (limit : Nat) :
    (store.take limit).2.rows = store.rows.drop limit := by
  have hnodup := store.nodup
  show store.rows.filter _ = _
  conv_lhs => rw [← take_append_drop limit store.rows]
  rw [← take_append_drop limit store.rows, map_append, nodup_append] at hnodup
  rw [filter_append, take_append_drop]
  have htaken : (store.rows.take limit).filter (fun row =>
      row.deliveryKey ∉ (store.rows.take limit).map (·.deliveryKey)) = [] := by
    refine filter_eq_nil_iff.mpr fun row hrow => ?_
    have hmem : row.deliveryKey ∈ (store.rows.take limit).map (·.deliveryKey) := mem_map_of_mem hrow
    simpa using hmem
  have hleft : (store.rows.drop limit).filter (fun row =>
      row.deliveryKey ∉ (store.rows.take limit).map (·.deliveryKey)) = store.rows.drop limit := by
    refine filter_eq_self.mpr fun row hrow => ?_
    have hnot : row.deliveryKey ∉ (store.rows.take limit).map (·.deliveryKey) := fun hmem =>
      hnodup.2.2 _ hmem _ (mem_map_of_mem hrow) rfl
    simpa using hnot
  rw [htaken, hleft, nil_append]

theorem take_events_keys (store : IntakeStore) (limit : Nat) :
    (store.take limit).1.map (·.deliveryKey) = (store.rows.take limit).map (·.deliveryKey) := by
  rw [IntakeStore.take, map_map]
  rfl

theorem mem_take_keys (limit : Nat) (h : key ∈ store.keys) :
    key ∈ (store.take limit).1.map (·.deliveryKey) ∨ key ∈ (store.take limit).2.keys := by
  rw [IntakeStore.keys, ← take_append_drop limit store.rows, map_append, mem_append] at h
  rw [take_events_keys, IntakeStore.keys, take_rows]
  exact h

/-! ## one write -/

theorem held_step {act : Act} (hcrash : act = .crash → d.hand.keys = []) (h : Held d key) :
    Held (d.step attacher act) key := by
  obtain ⟨store, hand, ended⟩ := d
  cases act with
  | put =>
    obtain (hstore | hended) | hhand := h
    · exact .inl (.inl (mem_put_keys.mpr (.inr hstore)))
    · exact .inl (.inr hended)
    · exact .inr hhand
  | crash =>
    obtain hkept | hhand := h
    · exact .inl hkept
    · rw [hcrash rfl] at hhand
      cases hhand
  | take =>
    cases hand with
    | processing | retrying => exact h
    | idle =>
      obtain (hstore | hended) | hhand := h
      · obtain htaken | hleft := mem_take_keys intakeTickLimit hstore
        · refine .inr ?_
          show key ∈ ((store.take intakeTickLimit).1 ++ []).map IngressEvent.deliveryKey
          rwa [append_nil]
        · exact .inl (.inl hleft)
      · exact .inl (.inr hended)
      · cases hhand
  | advance answer =>
    cases hand with
    | idle => exact h
    | processing todo outcome =>
      cases todo with
      | nil => exact h
      | cons event =>
        -- the event ends, or joins the failed ones
        have hnext : (attacher.processOne answer outcome event).failedEvents = _ :=
          processOne_failedEvents attacher answer outcome event
        obtain (hstore | hended) | hhand := h
        · exact .inl (.inl hstore)
        · refine .inl (.inr ?_)
          show key ∈ if attacher.fails answer event then ended else event.deliveryKey :: ended
          split_ifs
          · exact hended
          · exact mem_cons_of_mem _ hended
        · unfold Held Kept Daemon.step Hand.keys
          dsimp only
          rw [hnext]
          simp only [Hand.keys, map_cons, map_append, mem_cons,
            mem_append] at hhand
          split_ifs <;> simp only [map_append, map_cons, mem_append,
            mem_cons] <;> tauto
    | retrying left =>
      cases left with
      | nil => exact h
      | cons =>
        obtain (hstore | hended) | hhand := h
        · exact .inl (.inl (mem_put_keys.mpr (.inr hstore)))
        · exact .inl (.inr hended)
        · obtain rfl | hleft := mem_cons.mp hhand
          · exact .inl (.inl (mem_put_keys.mpr (.inl rfl)))
          · exact .inr hleft

/-! ## a run -/

theorem crashesEmptyHanded_nil : CrashesEmptyHanded attacher d [] :=
  fun _ _ heq => absurd heq.symm (by simp)

theorem crashesEmptyHanded_cons {act : Act} : CrashesEmptyHanded attacher d (act :: acts) ↔
    (act = .crash → d.hand.keys = []) ∧ CrashesEmptyHanded attacher (d.step attacher act) acts := by
  constructor
  · intro h
    refine ⟨?_, fun before after heq => h (act :: before) after (congrArg (act :: ·) heq)⟩
    rintro rfl
    exact h [] acts rfl
  · rintro ⟨hhead, htail⟩ before after heq
    cases before with
    | nil => exact hhead (cons.inj heq).1
    | cons _ before =>
      obtain ⟨rfl, hrest⟩ := cons.inj heq
      exact htail before after hrest

theorem held_run (hidle : CrashesEmptyHanded attacher d acts) (h : Held d key) :
    Held (d.run attacher acts) key := by
  induction acts generalizing d with
  | nil => exact h
  | cons _ _ ih =>
    obtain ⟨hhead, htail⟩ := crashesEmptyHanded_cons.mp hidle
    exact ih htail (held_step hhead h)

theorem held_of_put (hidle : CrashesEmptyHanded attacher d acts) (hput : .put event ∈ acts) :
    Held (d.run attacher acts) event.deliveryKey := by
  induction acts generalizing d with
  | nil => cases hput
  | cons _ _ ih =>
    obtain ⟨-, htail⟩ := crashesEmptyHanded_cons.mp hidle
    obtain rfl | hput := mem_cons.mp hput
    · rw [Daemon.run_cons]
      exact held_run htail (.inl (.inl (mem_put_keys.mpr (.inl rfl))))
    · exact ih htail hput

theorem Held.kept (h : Held d key) (hnone : d.hand.keys = []) : Kept d key := by
  obtain h | h := h
  · exact h
  · rw [hnone] at h
    cases h

/-! ## ticks that find the board well -/

/-- the board attaches; what is put meanwhile is not older than the row -/
def Quiet (row : IntakeRow) : Act → Prop
  | .put event => row.precedes (.ofEvent event)
  | .advance answer => ∀ attachment, (answer attachment).isOk = true
  | .take | .crash => False

def Act.isAdvance : Act → Bool
  | .advance _ => true
  | _ => false

/-- complete ticks, each with enough steps for its batch -/
inductive Ticks (row : IntakeRow) : Nat → List Act → Prop
  | none : Ticks row 0 []
  | tick {n : Nat} {steps acts : List Act} (quiet : ∀ act ∈ steps, Quiet row act)
      (enough : intakeTickLimit + 2 ≤ steps.countP (·.isAdvance)) (more : Ticks row n acts) :
      Ticks row (n + 1) (.take :: (steps ++ acts))

def Hand.steps : Hand → Nat
  | .idle => 0
  | .processing todo _ => todo.length + 2
  | .retrying left => left.length + 1

/-- nothing has failed -/
def Hand.Clean : Hand → Prop
  | .idle => True
  | .processing _ outcome => outcome.failedEvents = []
  | .retrying left => left = []

theorem fails_eq_false (attacher : IntakeAttacher) {answer : IntakeAttachment → BoardAnswer}
    (h : ∀ attachment, (answer attachment).isOk = true) (event : IngressEvent) :
    attacher.fails answer event = false := by
  unfold IntakeAttacher.fails
  cases event.authorLogin.bind fun login =>
    intakeAttachment event (attacher.classifyAuthorOpt login event.authorIsBot) with
  | none => rfl
  | some attachment => simp [h attachment]

theorem orderedInsert_append (h : ∀ y ∈ before, ¬ row.precedes y) :
    (before ++ after).orderedInsert IntakeRow.precedes row =
      before ++ after.orderedInsert IntakeRow.precedes row := by
  induction before with
  | nil => rfl
  | cons y _ ih =>
    rw [cons_append, orderedInsert_of_not_le _ _ (h y mem_cons_self),
      ih fun z hz => h z (mem_cons_of_mem y hz), cons_append]

theorem put_after (hrows : store.rows = before ++ row :: after) (h : row.precedes (.ofEvent event)) :
    ∃ after', (store.put event).rows = before ++ row :: after' := by
  unfold IntakeStore.put
  split_ifs with hkey
  · exact ⟨after, hrows⟩
  · refine ⟨after.orderedInsert IntakeRow.precedes (.ofEvent event), ?_⟩
    show store.rows.orderedInsert _ _ = _
    have hsplit : before ++ row :: after = (before ++ [row]) ++ after := by simp
    rw [hrows, hsplit, orderedInsert_append, append_assoc]
    · rfl
    intro y hy hprecedes
    have hle : y.precedes row ∨ y = row := by
      have hsorted := store.sorted
      rw [hrows] at hsorted
      obtain hy | hy := mem_append.mp hy
      · exact .inl ((pairwise_append.mp hsorted).2.2 y hy row mem_cons_self)
      · exact .inr (mem_singleton.mp hy)
    have hy' : y.precedes (.ofEvent event) := hle.elim (fun hle => Trans.trans hle h) fun heq => heq ▸ h
    have hsame := IntakeRow.precedes_antisymm hprecedes hy'
    refine hkey ?_
    have hmem : y.deliveryKey ∈ store.keys := by
      refine mem_map_of_mem ?_
      rw [hrows, hsplit]
      exact mem_append_left after hy
    rwa [← hsame] at hmem

theorem run_steps (attacher : IntakeAttacher) (before : List IntakeRow) (steps : List Act)
    (hquiet : ∀ act ∈ steps, Quiet row act) (hclean : d.hand.Clean)
    (henough : d.hand.steps ≤ steps.countP (·.isAdvance)) : (d.run attacher steps).hand = .idle ∧
      (∀ key, key ∈ d.ended ∨ key ∈ d.hand.keys → key ∈ (d.run attacher steps).ended) ∧
      ((∃ after, d.store.rows = before ++ row :: after) →
        ∃ after, (d.run attacher steps).store.rows = before ++ row :: after) := by
  induction steps generalizing d with
  | nil =>
    obtain ⟨store, hand, ended⟩ := d
    cases hand with
    | idle => exact ⟨rfl, fun key h => h.resolve_right not_mem_nil, id⟩
    | processing | retrying => simp [Hand.steps] at henough
  | cons act steps ih =>
    have hrest : ∀ act ∈ steps, Quiet row act := fun a ha => hquiet a (mem_cons_of_mem act ha)
    have hact := hquiet act mem_cons_self
    obtain ⟨store, hand, ended⟩ := d
    rw [Daemon.run_cons]
    cases act with
    | take | crash => exact hact.elim
    | put event =>
      obtain ⟨hidle, hended, hrows⟩ := ih (d := ⟨store.put event, hand, ended⟩) hrest hclean henough
      refine ⟨hidle, hended, fun ⟨after, hafter⟩ => hrows (put_after hafter hact)⟩
    | advance answer =>
      have hcount : hand.steps ≤ steps.countP (·.isAdvance) + 1 := by
        simpa [Act.isAdvance] using henough
      cases hand with
      | idle => exact ih hrest trivial (Nat.zero_le _)
      | retrying left =>
        obtain rfl : left = [] := hclean
        exact ih hrest trivial (Nat.zero_le _)
      | processing todo outcome =>
        have hnone : outcome.failedEvents = [] := hclean
        cases todo with
        | nil =>
          obtain ⟨hidle, hended, hrows⟩ :=
            ih (d := ⟨store, .retrying outcome.failedEvents, ended⟩) hrest hnone (by
              rw [hnone]
              simp only [Hand.steps] at hcount ⊢
              omega)
          exact ⟨hidle, hended, hrows⟩
        | cons event todo =>
          have hfails := fails_eq_false attacher hact event
          have hfailed : (attacher.processOne answer outcome event).failedEvents = [] := by
            rw [processOne_failedEvents, hfails, hnone]
            rfl
          have hstep : Daemon.step attacher ⟨store, .processing (event :: todo) outcome, ended⟩
              (.advance answer) = ⟨store, .processing todo (attacher.processOne answer outcome event),
                event.deliveryKey :: ended⟩ := by
            simp only [Daemon.step, hfails]
            rfl
          rw [hstep]
          obtain ⟨hidle, hended, hrows⟩ := ih (d := ⟨store, .processing todo
            (attacher.processOne answer outcome event), event.deliveryKey :: ended⟩) hrest hfailed (by
              simp only [Hand.steps, length_cons] at hcount ⊢
              omega)
          refine ⟨hidle, fun key hkey => hended key ?_, hrows⟩
          simp only [Hand.keys, hnone, hfailed, append_nil, map_cons, mem_cons] at hkey ⊢
          tauto

theorem ended_mono (h : key ∈ d.ended) : key ∈ (d.run attacher acts).ended := by
  induction acts generalizing d with
  | nil => exact h
  | cons _ _ ih =>
    refine ih ?_
    unfold Daemon.step
    split
    · exact h
    · split <;> exact h
    · split
      · exact h
      · exact h
      · dsimp only
        split_ifs
        · exact h
        · exact mem_cons_of_mem _ h
      · exact h
      · exact h
    · exact h

/-- A row in one of the first `32 * n` places comes to its end within `n` ticks. -/
theorem ends_of_ticks {n : Nat} (hticks : Ticks row n acts) (hidle : d.hand = .idle)
    (hrows : d.store.rows = before ++ row :: after) (hplace : before.length < intakeTickLimit * n) :
    row.deliveryKey ∈ (d.run attacher acts).ended := by
  induction hticks generalizing d before after with
  | none => exact absurd hplace (Nat.not_lt_zero _)
  | @tick n steps acts quiet enough _ ih =>
    obtain ⟨store, hand, ended⟩ := d
    obtain rfl : hand = .idle := hidle
    rw [Daemon.run_cons, Daemon.run_append]
    let taken : Daemon := ⟨(store.take intakeTickLimit).2,
      .processing (store.take intakeTickLimit).1 {}, ended⟩
    have hlength : (store.take intakeTickLimit).1.length ≤ intakeTickLimit := by
      rw [IntakeStore.take, length_map]
      exact length_take_le _ _
    have henough : taken.hand.steps ≤ steps.countP (·.isAdvance) :=
      le_trans (Nat.add_le_add_right hlength 2) enough
    obtain ⟨hidle, hended, hstay⟩ := run_steps attacher (d := taken) (before.drop intakeTickLimit) steps
      quiet rfl henough
    by_cases hfirst : before.length < intakeTickLimit
    · -- the row is in this batch
      refine ended_mono (hended _ (.inr ?_))
      show row.deliveryKey ∈ ((store.take intakeTickLimit).1 ++ []).map IngressEvent.deliveryKey
      rw [append_nil, take_events_keys, hrows, take_append]
      refine mem_map_of_mem (mem_append_right _ ?_)
      obtain ⟨k, hk⟩ : ∃ k, intakeTickLimit - before.length = k + 1 :=
        ⟨_, (Nat.succ_pred (by omega)).symm⟩
      rw [hk]
      exact mem_cons_self
    · -- the batch is in front of it
      have hleft : taken.store.rows = before.drop intakeTickLimit ++ row :: after := by
        show (store.take intakeTickLimit).2.rows = _
        rw [take_rows, hrows, drop_append_of_le_length (by omega)]
      obtain ⟨after', hafter⟩ := hstay ⟨after, hleft⟩
      refine ih hidle hafter ?_
      rw [length_drop]
      rw [Nat.mul_succ] at hplace
      omega

end

/-- If no crash finds an unfinished event in the hand of the loop, then at each crash every event that was
put is in the store or ended, and an event that is still in the store ends in the ticks after the restart. -/
theorem put_event_survives_crashes (attacher : IntakeAttacher) (acts : List Act)
    (hcrashes : CrashesEmptyHanded attacher .initial acts) (before after : List Act)
    (hcrash : acts = before ++ .crash :: after) (event : IngressEvent) (hput : .put event ∈ before) :
    Kept (Daemon.initial.run attacher before) event.deliveryKey ∧
      Kept (Daemon.initial.run attacher (before ++ [.crash])) event.deliveryKey ∧
      ∀ row ∈ (Daemon.initial.run attacher (before ++ [.crash])).store.rows,
        row.deliveryKey = event.deliveryKey → ∀ n ticks, Ticks row n ticks →
          (Daemon.initial.run attacher (before ++ [.crash])).store.rows.length ≤ intakeTickLimit * n →
          event.deliveryKey ∈ (Daemon.initial.run attacher (before ++ [.crash] ++ ticks)).ended := by
  have hbefore : CrashesEmptyHanded attacher .initial before := fun b a heq =>
    hcrashes b (a ++ .crash :: after) (by rw [hcrash, heq, append_assoc, cons_append])
  have hkept := (held_of_put hbefore hput).kept (hcrashes before after hcrash)
  -- the crash takes nothing but the hand
  have hafter : Daemon.initial.run attacher (before ++ [.crash]) =
      { Daemon.initial.run attacher before with hand := .idle } := Daemon.run_append before [.crash]
  refine ⟨hkept, by rwa [hafter], fun row hrow hkey n ticks hticks hlength => ?_⟩
  rw [Daemon.run_append, ← hkey]
  obtain ⟨older, newer, hrows⟩ := append_of_mem hrow
  refine ends_of_ticks hticks (by rw [hafter]) hrows ?_
  rw [hrows, length_append, length_cons] at hlength
  omega

def demoAttacher : IntakeAttacher := { serviceIdentities := ["worker"], lowercase := id }

def demoReport : IngressEvent :=
  { deliveryKey := "o/r#7", repo := "o/r", eventType := "issues-opened", headSha := none, number := 7,
    authorLogin := some "reader", authorIsBot := some false, acceptedAtSecs := 100 }

def failedTick : List Act :=
  [.take, .advance fun _ => .error "board unreachable", .advance fun _ => .ok true,
    .advance fun _ => .ok true, .advance fun _ => .ok true]

def goodTick : List Act := .take :: (List.replicate 34 (.advance fun _ => .ok true) ++ [])

theorem put_event_survives_crashes_failedTick :
    Kept (Daemon.initial.run demoAttacher (.put demoReport :: failedTick)) "o/r#7" ∧
      "o/r#7" ∈ (Daemon.initial.run demoAttacher
        (.put demoReport :: failedTick ++ [.crash] ++ goodTick)).ended := by
  have hidle : CrashesEmptyHanded demoAttacher .initial (.put demoReport :: failedTick ++ [.crash]) := by
    simp only [failedTick, cons_append, nil_append, crashesEmptyHanded_cons, reduceCtorEq,
      false_implies, true_and]
    exact ⟨fun _ => by decide +kernel, crashesEmptyHanded_nil⟩
  obtain ⟨hbefore, -, hticks⟩ := put_event_survives_crashes demoAttacher _ hidle
    (.put demoReport :: failedTick) [] rfl demoReport mem_cons_self
  refine ⟨hbefore, hticks (.ofEvent demoReport) (by decide +kernel) rfl 1 _ ?_ (by decide +kernel)⟩
  refine .tick (fun act hact => ?_) (by decide +kernel) .none
  rw [eq_of_mem_replicate hact]
  exact fun _ => rfl

/-- a crash right after the batch was taken: the report is nowhere -/
theorem crash_in_tick_loses_report :
    ∃ (attacher : IntakeAttacher) (event : IngressEvent), event.eventType = "issues-opened" ∧
      ¬ Kept (Daemon.initial.run attacher [.put event, .take]) event.deliveryKey ∧
      ¬ Kept (Daemon.initial.run attacher [.put event, .take, .crash]) event.deliveryKey ∧
      (Daemon.initial.run attacher [.put event, .take, .crash]).hand = .idle := by
  refine ⟨demoAttacher, demoReport, rfl, ?_, ?_, rfl⟩
  · unfold Kept
    decide +kernel
  · unfold Kept
    decide +kernel

end Ingress

import Orchestraitor.Campaign.LoopSteps

/-!
# A run keeps its books

Every call of the runner is made in a world that the steps reach, and what a part of the runner
leaves behind is again such a world: one lemma per function of the source, in its order.  `At s n h k`
says that the state of the runner, with `n` runs reaped and not yet counted and the rows `h` without a
slot, is a reachable ledger; a part that fails leaves `Broken`.
-/

namespace Campaign
open Base CallState LoopRunStore
open List hiding isEmpty_iff
open LoopRunner hiding pass round run

section
variable (r : LoopRunner) (law : Seen → (q : Query) → Answer q → Prop) (w₀ : World)

def Shown (k : Seen) : Prop := k.failed = true ∨ ∃ l k', Reach r law w₀ (l, k') ∧ k'.shown = k.shown

/-- the books, open at every call -/
def observer : Calls.Monitor Answer Seen :=
  { books r law with permits := fun k _ => Shown r law w₀ k }

def At (s : LoopState) (pending : Nat) (hand : List (Nat × String)) (k : Seen) : Prop :=
  Reach r law w₀ (s.ledger pending hand, k)

/-- a reachable world has made the passes of the state -/
def Past (s : LoopState) : Prop :=
  ∃ l k, Reach r law w₀ (l, k) ∧ s.notes.filter (·.isPass) <+: l.passes

/-- and shows what is seen -/
def Near (s : LoopState) (k : Seen) : Prop :=
  ∃ l k', Reach r law w₀ (l, k') ∧ s.notes.filter (·.isPass) <+: l.passes ∧ k'.shown = k.shown

/-- a reachable world is what is seen, with the given slots and the passes of the state; no row is
without a slot but for an overflow of the clock or an odd failure of the starter -/
def Left (s : LoopState) (slots : List Slot) (k : Seen) : Prop :=
  ∃ l, Reach r law w₀ (l, k) ∧ l.slots = slots ∧ l.passes = s.notes.filter (·.isPass) ∧
    (l.hand = [] ∨ k.overflowed = true ∨ k.oddStart = true)

def Swept (s : LoopState) (slots : List Slot) (k : Seen) : Prop :=
  k.failed = true ∧ Past r law w₀ s ∨ Left r law w₀ s slots k

/-- how an error can leave the run -/
def Broken (_ : Fatal) (s : LoopState) (k : Seen) : Prop := Swept r law w₀ s s.slots k

abbrev Walks {α : Type} (post : α → LoopState → Seen → Prop) (x : RunM α) (s : LoopState) (k : Seen) :
    Prop :=
  x.Meets (observer r law w₀) post (Broken r law w₀) s k

end

variable {r : LoopRunner} {law : Seen → (q : Query) → Answer q → Prop} {w₀ : World}
  {s s' : LoopState} {n : Nat} {hand : List (Nat × String)} {k k' : Seen} {α : Type}

theorem At.near (h : At r law w₀ s n hand k) : Near r law w₀ s k :=
  ⟨_, k, h, prefix_refl _, rfl⟩

theorem Near.shown (h : Near r law w₀ s k) : Shown r law w₀ k := by
  obtain ⟨l, k', hr, -, hk⟩ := h
  exact .inr ⟨l, k', hr, hk⟩

theorem Near.past (h : Near r law w₀ s k) : Past r law w₀ s := by
  obtain ⟨l, k', hr, hp, -⟩ := h
  exact ⟨l, k', hr, hp⟩

theorem Near.of_shown (h : Near r law w₀ s k) (hk : k'.shown = k.shown) : Near r law w₀ s k' := by
  obtain ⟨l, k'', hr, hp, hk''⟩ := h
  exact ⟨l, k'', hr, hp, hk''.trans hk.symm⟩

theorem At.step {l : Ledger} (h : At r law w₀ s n hand k)
    (hstep : Step r law (s.ledger n hand, k) (l, k')) : Reach r law w₀ (l, k') :=
  Relation.ReflTransGen.tail h hstep

theorem At.left (h : At r law w₀ s n [] k) : Left r law w₀ s s.slots k := ⟨_, h, rfl, rfl, .inl rfl⟩

variable {slots : List Slot} {β : Type} {post : α → LoopState → Seen → Prop} {f : Unit → RunM α}
  {err : Fatal → LoopState → Seen → Prop} {e now : Nat} {snapshot : BoardSnapshot}

theorem Left.near (h : Left r law w₀ s slots k) : Near r law w₀ s k := by
  obtain ⟨l, hr, -, hp, -⟩ := h
  exact ⟨l, k, hr, hp ▸ prefix_refl _, rfl⟩

/-! ## single calls -/

def Query.isQuiet : Query → Bool
  | .now | .store _ | .start .. | .join _ => false
  | _ => true

theorem Query.next_of_isQuiet {q : Query} (hq : q.isQuiet = true) (a : Answer q) :
    k.next r q a = k := by
  cases q <;> first | rfl | cases hq

theorem walks_bind {x : RunM β} {f : β → RunM α} : Walks r law w₀ post (x >>= f) s k ↔
      Walks r law w₀ (fun b s' k' => Walks r law w₀ post (f b) s' k') x s k := meets_bind

theorem walks_pure {a : α} : Walks r law w₀ post (pure a) s k ↔ post a s k := Iff.rfl

theorem walks_get {f : LoopState → RunM α} :
    Walks r law w₀ post (get >>= f) s k ↔ Walks r law w₀ post (f s) s k := Iff.rfl

theorem walks_note {m : Note} : Walks r law w₀ post (note m >>= f) s k ↔
      Walks r law w₀ post (f ()) { s with notes := s.notes ++ [m] } k := Iff.rfl

theorem walks_pushEvent {event : LoopEvent} : Walks r law w₀ post (pushEvent event >>= f) s k ↔
      Walks r law w₀ post (f ()) { s with events := s.events ++ [event] } k := Iff.rfl

theorem walks_update {g : LoopState → LoopState} :
    Walks r law w₀ post (update g >>= f) s k ↔ Walks r law w₀ post (f ()) (g s) k := Iff.rfl

theorem Walks.bind {post' : β → LoopState → Seen → Prop} {x : RunM β} {f : β → RunM α}
    (hx : Walks r law w₀ post' x s k)
    (hf : ∀ b s' k', post' b s' k' → Walks r law w₀ post (f b) s' k') :
    Walks r law w₀ post (x >>= f) s k :=
  walks_bind.mpr (hx.mono hf fun _ _ _ h => h)

theorem walks_forEach {f : β → RunM Unit} {I : List β → LoopState → Seen → Prop} {l : List β}
    (hstep : ∀ b l' s k, I (b :: l') s k → Walks r law w₀ (fun _ => I l') (f b) s k) (hI : I l s k) :
    Walks r law w₀ (fun _ => I []) (forEach l f) s k := meets_forEach hstep hI

theorem walks_quiet {q : Query} {post : Reply q → LoopState → Seen → Prop} (hq : q.isQuiet = true)
    (hk : Shown r law w₀ k) (h : ∀ reply, post reply s k) :
    (call q).Meets (observer r law w₀) post err s k := by
  refine meets_call.mpr ⟨hk, fun a _ => ?_⟩
  show post a.reply s (k.next r q a)
  rw [Query.next_of_isQuiet hq]
  exact h a.reply

theorem walks_now {post : Nat → LoopState → Seen → Prop} (hat : At r law w₀ s n hand k)
    (h : ∀ e, At r law w₀ s n hand (k.read r e) → post e s (k.read r e)) :
    Walks r law w₀ post (call .now) s k :=
  meets_call.mpr ⟨hat.near.shown, fun a ha => h a.reply (hat.step (.read a ha.2))⟩

/-- the reading on which the next time stamps rest -/
structure ReadAt (r : LoopRunner) (k : Seen) (elapsed : Nat) : Prop where
  elapsed_eq : k.elapsed = elapsed
  overflowed : r.nowSecs? elapsed = none → k.overflowed = true

theorem readAt_read (k : Seen) (e : Nat) : ReadAt r (k.read r e) e :=
  ⟨rfl, fun h => by simp [Seen.read, h]⟩

theorem walks_nowSecs {post : Nat → LoopState → Seen → Prop} (hat : At r law w₀ s n hand k)
    (hread : ReadAt r k e) (h : ∀ now, r.nowSecs? k.elapsed = some now → post now s k) :
    Walks r law w₀ post (r.nowSecs e) s k := by
  rw [hread.elapsed_eq] at h
  unfold nowSecs
  cases hnow : r.nowSecs? e with
  | some now => exact h now hnow
  | none => exact .inr ⟨_, hat, rfl, rfl, .inr (.inl (hread.overflowed hnow))⟩

theorem walks_storeCall (op : StoreOp) {post : op.Reply → LoopState → Seen → Prop}
    (hk : Near r law w₀ s k) (h : ∀ v, (k.store.exec op).1 = .ok v → post v s (k.after op)) :
    Walks r law w₀ post (storeCall op) s k := by
  unfold storeCall callE
  rw [walks_bind]
  refine meets_call.mpr ⟨hk.shown, fun a ha => ?_⟩
  obtain ⟨reply, moment⟩ := a
  cases reply with
  | ok v =>
    refine h v ?_
    obtain h | ⟨message, h⟩ := ha.1
    · exact h.symm
    · cases h
  | error => exact .inl ⟨rfl, hk.past⟩

theorem walks_callE {x : RunM (Except SqliteError α)} (hleft : Left r law w₀ s s.slots k)
    (hx : ∀ post', (∀ reply, post' reply s k) → Walks r law w₀ post' x s k) (h : ∀ v, post v s k) :
    Walks r law w₀ post (callE x) s k := by
  unfold callE
  rw [walks_bind]
  apply hx
  intro reply
  cases reply with
  | ok v => exact h v
  | error => exact .inr hleft

/-! ## the end of a run -/

theorem recordTaskOutcome_walks {taskId : String} {status : RunRowStatus} {cls : String × Bool}
    (hk : Near r law w₀ s k) : Walks r law w₀ (fun exhausted s' k' => s' = s ∧
        k' = k.noted r.config.guardrails taskId status cls now ∧
        exhausted.getD status = k'.store.finalStatus r.config.guardrails taskId status)
      (r.recordTaskOutcome taskId status cls.1 cls.2 now) s k := by
  unfold recordTaskOutcome
  cases status with
  | completed =>
    rw [walks_bind]
    exact walks_storeCall _ hk fun _ _ => ⟨rfl, rfl, rfl⟩
  | failed | stalled | timedOut =>
    -- the failure is recorded, then the attempts are read back
    rw [walks_bind]
    refine walks_storeCall _ hk fun v hv => ?_
    have hk' : k.after (.recordTaskFailure taskId cls.1 cls.2 (backoffUntil r.config.guardrails now)) =
        k.noted r.config.guardrails taskId .failed cls now :=
      congrArg (fun store => ({ k with store } : Seen)) (exec_recordTaskFailure_ok hv)
    rw [hk']
    split_ifs with hmax
    · exact ⟨rfl, rfl, by simp [finalStatus, exhausted, hmax]⟩
    · rw [walks_bind]
      refine walks_storeCall _ (hk.of_shown (by simp [Seen.shown, Seen.noted])) fun state hstate => ?_
      obtain rfl := Except.ok.inj hstate
      have hpos := Nat.pos_of_ne_zero hmax
      split_ifs with hex
      · exact ⟨rfl, rfl, by simp [finalStatus, exhausted, Seen.after, exec, hpos, hex]⟩
      · exact ⟨rfl, rfl, by simp [finalStatus, exhausted, Seen.after, exec, hex]⟩
  | abortedShutdown | stuck | running | orphaned | paused => exact ⟨rfl, rfl, rfl⟩

theorem settle_walks (run : Nat × String) {status : RunRowStatus} {cls : String × Bool}
    {detail : String} (hk : Near r law w₀ s k) :
    Walks r law w₀ (fun final s' k' => s' = s ∧ k.store.isRunning run.1 = true ∧
        k' = k.settled r.config.guardrails run status cls now detail ∧
        ∃ store : LoopRunStore, final = store.finalStatus r.config.guardrails run.2 status)
      (r.settle run.1 run.2 status cls now detail) s k := by
  refine (recordTaskOutcome_walks hk).bind ?_
  rintro exhausted _ _ ⟨rfl, rfl, hfinal⟩
  rw [walks_bind]
  refine walks_storeCall _ (hk.of_shown (by simp [Seen.shown, Seen.noted])) fun v hv => ?_
  obtain ⟨hrun, hstore⟩ := exec_finish_ok hv
  refine ⟨rfl, ?_, ?_, _, hfinal⟩
  · rw [← hrun]
    exact (outcome_isRunning ..).symm
  · show ({ k with store := _, moved := _ } : Seen) = { k with store := _, moved := _ }
    rw [hstore, hfinal]
    rfl

/-! ## reaping -/

theorem reapOne_walks {before after : List Slot} {slot : Slot} (hat : At r law w₀ s n hand k)
    (hs : s.slots = before ++ slot :: after) :
    Walks r law w₀ (fun reaped s' k' => s' = { s with slots := before ++ after } ∧
        At r law w₀ s' (n + 1) hand k' ∧ ∀ c : Counters, (c.note reaped).terminal = c.terminal + 1)
      (r.reapOne slot) { s with slots := before ++ after } k := by
  unfold reapOne
  rw [walks_bind]
  refine meets_call.mpr ⟨hat.near.shown, fun a _ => ?_⟩
  have htaken : At r law w₀ { s with slots := before ++ after } n (slot.row :: hand)
      (k.joined slot.process) := hat.step (.take hs)
  have hends := arbitrate_endsRun a.reply slot.intent
  show Walks r law w₀ _ _ _ (k.joined slot.process)
  revert hends
  obtain ⟨status, detail, completed⟩ := arbitrate a.reply slot.intent
  intro hends
  rw [walks_bind]
  refine walks_now htaken fun e hat' => ?_
  rw [walks_bind]
  refine walks_nowSecs hat' (readAt_read _ e) fun now hnow => ?_
  refine (settle_walks slot.row hat'.near).bind ?_
  rintro final _ k' ⟨rfl, hrun, rfl, store, rfl⟩
  exact ⟨rfl, hat'.step (.settle rfl hnow hrun hends), fun c => Counters.note_terminal hends c _⟩

theorem reapFrom_walks {kept rest : List Slot} (hat : At r law w₀ s n hand k)
    (hs : s.slots = kept ++ rest) :
    Walks r law w₀ (fun results s' k' => At r law w₀ s' (n + results.length) hand k' ∧
        ∀ reaped ∈ results, ∀ c : Counters, (c.note reaped).terminal = c.terminal + 1)
      (r.reapFrom kept rest) s k := by
  induction rest generalizing kept s n k with
  | nil => exact ⟨hat, nofun⟩
  | cons _ _ ih =>
    rw [reapFrom, walks_bind]
    refine walks_quiet rfl hat.near.shown fun finished => ?_
    cases finished with
    | false =>
      refine ih hat ?_
      rw [hs, append_assoc]
      rfl
    | true =>
      simp only [if_true]
      rw [walks_update]
      refine (reapOne_walks hat hs).bind ?_
      rintro reaped _ k' ⟨rfl, hat', hcount⟩
      refine (ih hat' rfl).bind ?_
      rintro others s'' k'' ⟨hat'', hothers⟩
      refine ⟨?_, ?_⟩
      · rw [length_cons, Nat.add_comm others.length, ← Nat.add_assoc]
        exact hat''
      · intro reaped' hmem
        obtain rfl | hmem := mem_cons.mp hmem
        · exact hcount
        · exact hothers reaped' hmem

theorem recordReaps_walks (hat : At r law w₀ s 0 hand k) :
    Walks r law w₀ (fun _ s' k' => At r law w₀ s' 0 hand k') r.recordReaps s k := by
  unfold recordReaps reapFinished
  rw [walks_bind]
  refine (reapFrom_walks hat rfl).mono ?_ fun _ _ _ h => h
  rintro results s' k' ⟨hat', hcount⟩
  rw [Nat.zero_add] at hat'
  refine (walks_forEach
    (I := fun rest s' k' => At r law w₀ s' rest.length hand k' ∧
      ∀ reaped ∈ rest, ∀ c : Counters, (c.note reaped).terminal = c.terminal + 1)
    ?_ ⟨hat', hcount⟩).mono (fun _ _ _ h => h.1) fun _ _ _ h => h
  rintro reaped rest s'' k'' ⟨hat'', hcount''⟩
  refine ⟨?_, fun reaped' h => hcount'' reaped' (mem_cons_of_mem _ h)⟩
  have hnote := hcount'' reaped mem_cons_self s''.counters
  have hstep := hat''.step (.count rfl)
  show Reach r law w₀ ({ s''.ledger rest.length hand with
    counted := (s''.counters.note reaped).terminal, released := true }, k'')
  rw [hnote]
  exact hstep

/-! ## supervision -/

theorem killWhere_walks {p : Slot → Nat → Bool} {intent : StopIntent} {J : List Slot → Seen → Prop}
    (hshown : ∀ {slots k}, J slots k → Shown r law w₀ k)
    (hread : ∀ {slots k} (a : Answer .now), law k .now a → J slots k → J slots (k.read r a.reply))
    (hmark : ∀ {slots slots' k}, slots'.map Slot.key = slots.map Slot.key → J slots k → J slots' k)
    (h : J s.slots k) : (killWhere p intent).Meets (observer r law w₀)
      (fun _ s' k' => s' = { s with slots := s'.slots } ∧ J s'.slots k') err s k := by
  unfold killWhere
  rw [meets_bind]
  refine meets_call.mpr ⟨hshown h, fun a ha => ?_⟩
  refine meets_forEach
    (I := fun _ (s' : LoopState) k' => s' = { s with slots := s'.slots } ∧ J s'.slots k') ?_ ⟨rfl, ?_⟩
  · rintro slot _ s' k' ⟨hs, hJ⟩
    rw [meets_bind]
    exact walks_quiet rfl (hshown hJ) fun _ => ⟨hs, hJ⟩
  · refine hmark ?_ (hread a ha.2 h)
    rw [map_map]
    refine map_congr_left fun slot _ => ?_
    show Slot.key (if p slot a.reply then _ else slot) = Slot.key slot
    split <;> rfl

theorem killWhere_at {p : Slot → Nat → Bool} {intent : StopIntent} (hat : At r law w₀ s n hand k) :
    Walks r law w₀ (fun _ s' k' => At r law w₀ s' n hand k') (killWhere p intent) s k := by
  refine (killWhere_walks (J := fun slots k => At r law w₀ { s with slots } n hand k)
    (fun h => h.near.shown) (fun a ha h => h.step (.read a ha)) (fun hk h => h.step (.mark hk))
    hat).mono ?_ fun _ _ _ h => h
  rintro _ s' k' ⟨hs, h⟩
  rw [hs]
  exact h

theorem freshBeats_walks (hk : Shown r law w₀ k) (slots : List Slot) :
    Walks r law w₀ (fun res s' k' => s' = s ∧ k' = k ∧ res.1.map Slot.key = slots.map Slot.key)
      (freshBeats e slots) s k := by
  induction slots with
  | nil => exact ⟨rfl, rfl, rfl⟩
  | cons slot _ ih =>
    rw [freshBeats, walks_bind]
    refine walks_quiet rfl hk fun fresh => ?_
    refine ih.bind ?_
    rintro ⟨slots', beats⟩ _ _ ⟨rfl, rfl, hkeys⟩
    cases fresh with
    | some | none => exact ⟨rfl, rfl, congrArg (slot.key :: ·) hkeys⟩

theorem supervise_walks (hat : At r law w₀ s 0 [] k) :
    Walks r law w₀ (fun _ s' k' => At r law w₀ s' 0 [] k') r.supervise s k := by
  refine (recordReaps_walks hat).bind fun _ s1 k1 hat1 => ?_
  rw [walks_bind]
  refine walks_now hat1 fun e hat2 => ?_
  rw [walks_get]
  refine (freshBeats_walks hat2.near.shown s1.slots).bind ?_
  rintro ⟨slots, beats⟩ s1 _ ⟨rfl, rfl, hkeys⟩
  rw [walks_update]
  have hat3 : At r law w₀ { s1 with slots } 0 [] (k1.read r e) := hat2.step (.mark hkeys)
  rw [walks_bind]
  refine walks_nowSecs hat3 (readAt_read _ e) fun now hnow => ?_
  refine Walks.bind (walks_forEach (I := fun _ s' k' => At r law w₀ s' 0 [] k') ?_ hat3)
    fun _ s4 k4 hat4 => ?_
  · rintro ⟨runId, beat⟩ _ s' k' hat'
    exact walks_storeCall (.heartbeat runId beat now) hat'.near fun _ _ =>
      hat'.step (.beat runId beat now)
  refine (killWhere_at hat4).bind fun _ s5 k5 hat5 => ?_
  refine (killWhere_at hat5).bind fun _ s6 k6 hat6 => ?_
  exact recordReaps_walks hat6

theorem walks_addDuration {post : Nat → LoopState → Seen → Prop} {a b : Nat}
    (hat : At r law w₀ s n [] k) (h : post (a + b) s k) :
    Walks r law w₀ post (addDuration a b) s k := by
  unfold addDuration
  split_ifs
  · exact h
  · exact .inr hat.left

theorem At.note {m : Note} (hm : m.isPass = false) (hat : At r law w₀ s n hand k) :
    At r law w₀ { s with notes := s.notes ++ [m] } n hand k := by
  have hledger : ({ s with notes := s.notes ++ [m] } : LoopState).ledger n hand = s.ledger n hand := by
    simp [LoopState.ledger, hm]
  rw [At, hledger]
  exact hat

theorem drainStep_walks (hat : At r law w₀ s 0 [] k) :
    Walks r law w₀ (fun _ s' k' => At r law w₀ s' 0 [] k') r.drainStep s k := by
  unfold drainStep
  rw [walks_bind]
  refine walks_now hat fun e hat1 => ?_
  rw [walks_get]
  split_ifs with hdue
  · refine (killWhere_at hat1).bind fun _ s2 k2 hat2 => ?_
    refine (recordReaps_walks hat2).bind fun _ s3 k3 hat3 => ?_
    rw [walks_get]
    split_ifs with hleft
    · rw [walks_bind]
      refine walks_addDuration hat3 ?_
      exact At.note rfl hat3
    · exact At.note rfl hat3
  · exact At.note rfl hat1

/-! ## signals -/

theorem applySignal_walks (hat : At r law w₀ s 0 [] k) :
    Walks r law w₀ (fun _ s' k' => At r law w₀ s' 0 [] k') (r.applySignal e) s k := by
  unfold applySignal
  rw [walks_get]
  split
  · exact hat
  · rw [walks_update, walks_bind]
    refine walks_addDuration (?_ : At r law w₀ _ 0 [] _) hat
    exact hat
  · rw [walks_update, walks_bind]
    refine walks_addDuration (?_ : At r law w₀ _ 0 [] _) hat
    exact hat

theorem waitTick_walks (hat : At r law w₀ s 0 [] k) :
    Walks r law w₀ (fun _ s' k' => At r law w₀ s' 0 [] k') r.waitTick s k := by
  unfold waitTick
  rw [walks_get, walks_bind]
  refine walks_quiet rfl hat.near.shown fun ended => ?_
  cases ended with
  | elapsed | sourceGone => exact hat
  | changed =>
    rw [walks_bind]
    refine walks_quiet rfl hat.near.shown fun seen => ?_
    rw [walks_update, walks_bind]
    refine walks_now hat fun e hat1 => ?_
    refine (applySignal_walks hat1).bind fun effect s2 k2 hat2 => ?_
    cases effect with
    | shortCircuit => exact At.note rfl hat2
    | begin =>
      refine At.note rfl ?_
      show Reach r law w₀ (LoopState.ledger (if _ then _ else _) 0 [], k2)
      split <;> exact hat2

theorem declareStop_walks {reason : StopReason} (hat : At r law w₀ s 0 [] k) :
    Walks r law w₀ (fun _ s' k' => At r law w₀ s' 0 [] k') (r.declareStop reason e) s k := by
  unfold declareStop
  rw [walks_bind]
  exact walks_addDuration hat hat

theorem shutdownFromPass_walks (hat : At r law w₀ s 0 [] k) :
    Walks r law w₀ (fun _ s' k' => At r law w₀ s' 0 [] k') r.shutdownFromPass s k := by
  unfold shutdownFromPass
  rw [walks_get, walks_bind]
  refine walks_now hat fun e hat1 => ?_
  refine (declareStop_walks hat1).bind fun _ s2 k2 hat2 => ?_
  exact At.note rfl hat2

/-! ## the pass -/

theorem excludedTasks_walks (hk : Near r law w₀ s k) :
    Walks r law w₀ (fun x s' k' => s' = s ∧ k' = k ∧ x = r.exclusions s.slots k.store now)
      (r.excludedTasks now) s k := by
  unfold excludedTasks exclusions
  rw [walks_get, walks_bind]
  refine walks_storeCall (.runsForInvocation r.invocationId) hk fun rows hrows => ?_
  obtain rfl := (Except.ok.inj hrows).symm
  dsimp only
  split_ifs with hscan
  · rw [walks_bind]
    refine walks_storeCall .allTaskRetryStates hk fun states hstates => ?_
    obtain rfl := (Except.ok.inj hstates).symm
    exact ⟨rfl, rfl, rfl⟩
  · exact ⟨rfl, rfl, rfl⟩

/-- what the gate leaves: the state that the next pass compares with, and for a skip its grounds -/
structure Gated (r : LoopRunner) (s s' : LoopState) (readyIds : List String)
    (gate : LoopRunner.KickoffGate) : Prop where
  ledger : s'.ledger 0 [] = { s.ledger 0 [] with previousReady := readyIds, released := false }
  skipped : ∀ observation, gate = .skipped observation → s.slots = [] ∧
    observation.readyIds = readyIds ∧ observation.previousReadyIds = s.previousReadyIds ∧
    observation.slotReleased = s.slotReleasedSincePass ∧
    (evaluate r.config.kickoff observation).kickOff = false

theorem kickoffGate_walks {excluded : List String} (hk : Shown r law w₀ k) :
    Walks r law w₀ (fun gate s' k' => k' = k ∧ Gated r s s'
        ((freshReady snapshot excluded).map (·.taskId)).dedup gate)
      (r.kickoffGate now snapshot excluded) s k := by
  unfold kickoffGate peekEvents
  rw [walks_get, walks_bind]
  have hpeek : ∀ post : List KickoffExternalEvent → LoopState → Seen → Prop,
      (∀ peeked, post peeked s k) →
      Walks r law w₀ post (if r.eventSource && r.config.kickoff.externalEvent && s.slots.isEmpty then
        call .pendingEvents else pure []) s k := by
    intro _ h
    split_ifs
    · exact walks_quiet rfl hk h
    · exact h []
  refine hpeek _ fun peeked => ?_
  unfold budgetWindowReset
  rw [walks_bind, walks_get, walks_update]
  rw [walks_pure, walks_update]
  split_ifs with hskip
  · refine ⟨rfl, rfl, ?_⟩
    rintro observation ⟨⟩
    simp only [Bool.not_not, Bool.and_eq_true, List.isEmpty_iff, Bool.not_eq_true'] at hskip
    exact ⟨hskip.1, rfl, rfl, rfl, hskip.2⟩
  · exact ⟨rfl, rfl, nofun⟩

theorem paceNoSpawn_walks (hat : At r law w₀ s n hand k) :
    Walks r law w₀ (fun _ s' k' => At r law w₀ s' n hand k') (r.paceNoSpawn e) s k := hat

theorem recordKickoffSkip_walks {observation : KickoffObservation}
    {budgetSkips : List (String × TaskSkipReason)} (hat : At r law w₀ s 0 [] k) :
    Walks r law w₀ (fun _ s' k' => At r law w₀ s' 0 [] k')
      (r.recordKickoffSkip e observation budgetSkips) s k := by
  unfold recordKickoffSkip
  rw [walks_bind]
  exact walks_callE hat.left (fun _ h => walks_quiet rfl hat.near.shown h) fun _ =>
    paceNoSpawn_walks hat

theorem consultTaskSelection_walks {ids : List String} (hk : Shown r law w₀ k) :
    Walks r law w₀ (fun _ s' k' => s' = s ∧ k' = k) (r.consultTaskSelection ids) s k := by
  unfold consultTaskSelection
  split
  · exact ⟨rfl, rfl⟩
  · split_ifs
    · exact ⟨rfl, rfl⟩
    · rw [walks_bind]
      exact walks_quiet rfl hk fun _ => ⟨rfl, rfl⟩

theorem planPass_walks {budgetSkips : List (String × TaskSkipReason)}
    (hleft : Left r law w₀ s s.slots k) :
    Walks r law w₀ (fun res s' k' => s' = s ∧ k' = k ∧ ∃ consulted,
        res.2 = appendBudgetSkips (campaignDecision snapshot r.routing consulted) budgetSkips)
      (r.planPass snapshot budgetSkips) s k := by
  refine (consultTaskSelection_walks hleft.near.shown).bind ?_
  rintro consulted s k ⟨rfl, rfl⟩
  rw [walks_bind]
  exact walks_callE hleft (fun _ h => walks_quiet rfl hleft.near.shown h) fun _ =>
    ⟨rfl, rfl, consulted, rfl⟩

theorem spawnFailed_walks (run : Nat × String) {message : String} (hat : At r law w₀ s 0 [run] k)
    (hnow : r.nowSecs? k.elapsed = some now) :
    Walks r law w₀ (fun _ s' k' => At r law w₀ s' 0 [] k')
      (r.spawnFailed run.1 run.2 message now) s k := by
  unfold spawnFailed
  refine (settle_walks run hat.near).bind ?_
  rintro final s _ ⟨rfl, hrun, rfl, -⟩
  rw [walks_update, walks_bind]
  have hat' := hat.step (.refuse ("spawn-failed", false) message rfl hnow hrun)
  refine walks_now (?_ : At r law w₀ _ 0 [] _) fun e hat'' => paceNoSpawn_walks hat''
  show Reach r law w₀ ({ s.ledger 0 [] with
    counted := Counters.terminal (if final = .stuck then _ else _), previousReady := [run.2] }, _)
  have hcounted : ∀ c : Counters, Counters.terminal
      (if final = .stuck then { c with stuck := c.stuck + 1 } else { c with failed := c.failed + 1 }) =
      c.terminal + 1 := by
    intro c
    unfold Counters.terminal
    split_ifs <;> (dsimp only; omega)
  rw [hcounted]
  exact hat'

/-- between the gate and the end of a pass the reachable world is the one before the gate -/
structure MidPass (r : LoopRunner) (law : Seen → (q : Query) → Answer q → Prop) (w₀ : World)
    (look : Look) (l : Ledger) (s : LoopState) (k : Seen) : Prop where
  reach : Reach r law w₀ (l, k)
  ledger : s.ledger 0 [] = { l with previousReady := look.freshIds r l k, released := false }

namespace MidPass
variable {look : Look} {l : Ledger}

theorem slots_eq (h : MidPass r law w₀ look l s k) : l.slots = s.slots :=
  (congrArg Ledger.slots h.ledger).symm

theorem passes_eq (h : MidPass r law w₀ look l s k) : l.passes = s.notes.filter (·.isPass) :=
  (congrArg Ledger.passes h.ledger).symm

theorem hand_eq (h : MidPass r law w₀ look l s k) : l.hand = [] :=
  (congrArg Ledger.hand h.ledger).symm

theorem left (h : MidPass r law w₀ look l s k) : Left r law w₀ s s.slots k :=
  ⟨l, h.reach, h.slots_eq, h.passes_eq, .inl h.hand_eq⟩

theorem of_ledger (h : MidPass r law w₀ look l s k) (hs : s'.ledger 0 [] = s.ledger 0 []) :
    MidPass r law w₀ look l s' k := ⟨h.reach, hs.trans h.ledger⟩

theorem closed (h : MidPass r law w₀ look l s k) {ended : PassEnd}
    (hr : Reach r law w₀ ({ look.passed r l k ended with hand }, k')) :
    At r law w₀ { s with notes := s.notes ++
      [.pass (look.snapshot.ready.map (·.taskId)) (look.excluded r l k) ended] } 0 hand k' := by
  have hl := h.ledger
  simp only [LoopState.ledger, Ledger.mk.injEq] at hl
  obtain ⟨hslots, hprevious, hreleased, hcounted, hpasses, hpending, -⟩ := hl
  rw [Look.passed, ← hslots, ← hprevious, ← hcounted, ← hpasses, ← hpending, ← hreleased] at hr
  rw [At, LoopState.ledger, filter_append]
  exact hr

end MidPass

theorem spawnSelected_walks {look : Look} {l : Ledger} {item : ReadyItem} {decisionId : Nat}
    (hmid : MidPass r law w₀ look l s k) (hitem : item ∈ look.fresh r l k)
    (hnow : r.nowSecs? k.elapsed = some look.now)
    (hcap : s.slots.length < r.config.maxConcurrentWorkers) :
    Walks r law w₀ (fun _ s' k' => At r law w₀ s' 0 [] k')
      (r.spawnSelected decisionId item.selected e look.now
        (.pass (look.snapshot.ready.map (·.taskId)) (look.excluded r l k) (.attempted item.taskId)))
      s k := by
  unfold spawnSelected startRow
  rw [walks_bind]
  refine walks_callE hmid.left (fun _ h => walks_quiet rfl hmid.left.near.shown h) fun spend => ?_
  rw [walks_bind, walks_bind]
  refine walks_storeCall (.insertRun (r.request item decisionId look.now)) hmid.left.near
    fun id hid => ?_
  obtain ⟨hfits, rfl, -⟩ := exec_insertRun_ok hid
  have hat := hmid.reach.tail (.insert look decisionId hitem hnow (hmid.slots_eq ▸ hcap) hmid.hand_eq hfits)
  -- the row is in the store, the pass is not yet noted
  have hnear : Near r law w₀ s (k.after (.insertRun (r.request item decisionId look.now))) :=
    ⟨_, _, hat, hmid.passes_eq ▸ prefix_append _ _, rfl⟩
  refine walks_storeCall (.byId k.store.nextId) hnear fun row hrow => ?_
  obtain hrowid := exec_byId_ok hrow
  rw [walks_note, walks_bind]
  replace hat := hmid.closed hat
  refine meets_call.mpr ⟨hat.near.shown, fun a _ => ?_⟩
  obtain ⟨reply, moment⟩ := a
  show Walks r law w₀ _ _ _ ((k.after (.insertRun (r.request item decisionId look.now))).launched reply)
  cases reply with
  | ok process =>
    refine hat.step (.launch { runId := row.id, taskId := item.taskId, process := process,
                                  lastBeatElapsed := e, startedElapsed := e, intent := none } ?_)
    rw [hrowid]
    rfl
  | error error =>
    cases error with
    | spawn taskId =>
      rw [hrowid]
      exact spawnFailed_walks (k.store.nextId, item.taskId) hat hnow
    | store | role | loop =>
      exact .inr ⟨_, hat.step .odd, rfl, rfl, .inr (.inr rfl)⟩

theorem drainPeeked_walks {ids : List String} (hk : Shown r law w₀ k) :
    Walks r law w₀ (fun _ s' k' => s' = s ∧ k' = k) (r.drainPeeked ids) s k := by
  unfold drainPeeked
  split_ifs
  · rw [walks_bind]
    exact walks_quiet rfl hk fun _ => ⟨rfl, rfl⟩
  · exact ⟨rfl, rfl⟩

theorem planAndSpawn_walks (hat : At r law w₀ s 0 [] k) (hnow : r.nowSecs? k.elapsed = some now)
    (hcap : s.slots.length < r.config.maxConcurrentWorkers) :
    Walks r law w₀ (fun _ s' k' => At r law w₀ s' 0 [] k') (r.planAndSpawn e now snapshot) s k := by
  refine (excludedTasks_walks hat.near).bind ?_
  rintro exclusions s k ⟨rfl, rfl, rfl⟩
  rw [walks_update]
  refine (kickoffGate_walks hat.near.shown).bind ?_
  rintro gate s1 k ⟨rfl, hgated⟩
  have hmid : MidPass r law w₀ ⟨snapshot, now⟩ (s.ledger 0 []) s1 k := ⟨hat, hgated.ledger⟩
  have hslots := hmid.slots_eq
  cases gate with
  | skipped observation =>
    obtain ⟨hempty, hready, hprevious, hreleased, hskip⟩ := hgated.skipped observation rfl
    exact recordKickoffSkip_walks (hmid.closed (hat.step
      (.skip ⟨snapshot, now⟩ hempty rfl rfl hready hprevious hreleased hskip)))
  | proceed =>
    refine (planPass_walks hmid.left).bind ?_
    rintro ⟨decisionId, decision⟩ s1 k ⟨rfl, rfl, consulted, rfl⟩
    rw [walks_pushEvent]
    refine (drainPeeked_walks hmid.left.near.shown).bind ?_
    rintro _ _ k ⟨rfl, rfl⟩
    unfold spawnOrPace
    split
    next selected hselected =>
      obtain ⟨item, hitem, rfl⟩ := campaignDecision_selected hselected
      refine spawnSelected_walks (hmid.of_ledger ?_) hitem hnow (hslots ▸ hcap)
      rfl
    next hnone =>
      have hfresh := campaignDecision_noOp hnone
      rw [walks_note]
      refine paceNoSpawn_walks ((hmid.of_ledger ?_).closed (hat.step (.idle ⟨snapshot, now⟩ hfresh)))
      rfl

theorem afterSnapshot_walks (hat : At r law w₀ s 0 [] k)
    (hcap : s.slots.length < r.config.maxConcurrentWorkers) :
    Walks r law w₀ (fun _ s' k' => At r law w₀ s' 0 [] k') (r.afterSnapshot snapshot) s k := by
  unfold afterSnapshot
  rw [walks_bind]
  refine walks_now hat fun e hat1 => ?_
  split_ifs with hbudget
  · rw [walks_note, walks_bind]
    refine walks_now (At.note rfl hat1) fun e' hat2 => ?_
    exact (declareStop_walks hat2).bind fun _ s3 k3 hat3 => hat3
  · rw [walks_bind]
    refine walks_quiet rfl hat1.near.shown fun _ => ?_
    rw [walks_bind]
    refine walks_quiet rfl hat1.near.shown fun _ => ?_
    rw [walks_get, walks_bind]
    refine walks_quiet rfl hat1.near.shown fun changed => ?_
    split_ifs with hchanged
    · rw [walks_note]
      exact (shutdownFromPass_walks (At.note rfl hat1)).bind fun _ s2 k2 hat2 => hat2
    · rw [walks_bind]
      refine walks_now hat1 fun e' hat2 => ?_
      rw [walks_bind]
      refine walks_nowSecs hat2 (readAt_read _ e') fun now hnow => ?_
      exact (planAndSpawn_walks hat2 hnow hcap).bind fun _ s3 k3 hat3 => hat3

theorem pass_walks (hat : At r law w₀ s 0 [] k) :
    Walks r law w₀ (fun _ s' k' => At r law w₀ s' 0 [] k') (r.pass e) s k := by
  unfold LoopRunner.pass
  rw [walks_get]
  split_ifs with hgated
  · exact hat
  have hcap : s.slots.length < r.config.maxConcurrentWorkers := by
    simp only [gatedOff, Bool.or_eq_true, decide_eq_true_eq] at hgated
    omega
  rw [walks_update, walks_bind]
  refine walks_now (?_ : At r law w₀ _ 0 [] _) fun before hat1 => ?_
  · exact hat
  rw [walks_bind]
  refine walks_quiet rfl hat1.near.shown fun polled => ?_
  cases polled with
  | snapshot => exact afterSnapshot_walks hat1 hcap
  | pollFailed =>
    rw [walks_update, walks_bind]
    refine walks_now (?_ : At r law w₀ _ 0 [] _) fun e' hat2 => ?_
    · exact hat1
    exact (paceNoSpawn_walks hat2).bind fun _ s3 k3 hat3 => hat3
  | shutdown =>
    rw [walks_bind]
    refine walks_quiet rfl hat1.near.shown fun seen => ?_
    rw [walks_update]
    refine (shutdownFromPass_walks ?_).bind fun _ s2 k2 hat2 => hat2
    exact hat1
  | budgetExpired =>
    rw [walks_bind]
    refine walks_now hat1 fun e' hat2 => ?_
    exact (declareStop_walks hat2).bind fun _ s3 k3 hat3 => hat3

/-! ## the loop -/

theorem proceed_walks (hat : At r law w₀ s 0 [] k) :
    Walks r law w₀ (fun _ s' k' => At r law w₀ s' 0 [] k') (r.proceed e now) s k := by
  unfold proceed
  split_ifs with hbudget
  · exact declareStop_walks hat
  rw [walks_bind]
  refine walks_callE hat.left (fun _ h => walks_quiet rfl hat.near.shown h) fun daily => ?_
  split_ifs with hspend
  · exact hat
  rw [walks_get]
  split_ifs with hcycles
  · exact declareStop_walks hat
  refine (pass_walks hat).bind fun consumed s1 k1 hat1 => ?_
  cases consumed with
  | false => exact hat1
  | true =>
    simp only [if_true]
    rw [walks_bind]
    exact walks_quiet rfl hat1.near.shown fun _ => hat1

theorem waitRound_walks (hat : At r law w₀ s 0 [] k) :
    Walks r law w₀ (fun _ s' k' => At r law w₀ s' 0 [] k') r.waitRound s k := by
  unfold waitRound
  rw [walks_get]
  split_ifs with hgone
  · rw [walks_bind]
    exact walks_quiet rfl hat.near.shown fun _ => hat
  · exact waitTick_walks hat

theorem round_walks (hat : At r law w₀ s 0 [] k) :
    Walks r law w₀ (fun done s' k' => At r law w₀ s' 0 [] k' ∧ (done = true → s'.slots = []))
      r.round s k := by
  unfold LoopRunner.round
  rw [walks_bind]
  refine walks_now hat fun e hat1 => ?_
  rw [walks_bind]
  refine walks_nowSecs hat1 (readAt_read _ e) fun now _ => ?_
  refine (supervise_walks hat1).bind fun _ s2 k2 hat2 => ?_
  rw [walks_get]
  split_ifs with hstop
  · refine (drainStep_walks hat2).bind fun _ s3 k3 hat3 => ?_
    rw [walks_get]
    split_ifs with hempty
    · exact ⟨hat3, fun _ => List.isEmpty_iff.mp hempty⟩
    · exact (waitRound_walks hat3).bind fun _ s4 k4 hat4 => ⟨hat4, nofun⟩
  · refine (proceed_walks hat2).bind fun _ s3 k3 hat3 => ?_
    exact (waitRound_walks hat3).bind fun _ s4 k4 hat4 => ⟨hat4, nofun⟩

/-! ## the way out -/

theorem Swept.shown (h : Swept r law w₀ s slots k) : Shown r law w₀ k := by
  obtain ⟨h, -⟩ | h := h
  · exact .inl h
  · exact h.near.shown

theorem Swept.read (a : Answer .now) (ha : law k .now a) (h : Swept r law w₀ s slots k) :
    Swept r law w₀ s slots (k.read r a.reply) := by
  obtain h | ⟨l, hr, hs, hp, hhand⟩ := h
  · exact .inl h
  · refine .inr ⟨l, hr.tail (.read a ha), hs, hp, ?_⟩
    obtain h | h | h := hhand
    · exact .inl h
    · exact .inr (.inl (Bool.or_eq_true_iff.mpr (.inl h)))
    · exact .inr (.inr h)

theorem Swept.mark {slots' : List Slot} (hkeys : slots'.map Slot.key = slots.map Slot.key)
    (h : Swept r law w₀ s slots k) : Swept r law w₀ s slots' k := by
  obtain h | ⟨l, hr, rfl, hp, hhand⟩ := h
  · exact .inl h
  · exact .inr ⟨_, hr.tail (.mark hkeys), rfl, hp, hhand⟩

theorem sweepOne_walks {slot : Slot} {rest : List Slot} (h : Swept r law w₀ s (slot :: rest) k) :
    (r.sweepOne slot).Meets (observer r law w₀)
      (fun _ s' k' => s'.slots = s.slots ∧ Swept r law w₀ s' rest k') err s k := by
  unfold sweepOne
  rw [meets_bind]
  refine meets_call.mpr ⟨h.shown, fun _ _ => ?_⟩
  obtain ⟨hfailed, hpast⟩ | ⟨l, hr, hs, hp, hhand⟩ := h
  · rw [meets_bind]
    refine meets_call.mpr ⟨.inl hfailed, fun a _ => ?_⟩
    rw [meets_bind]
    refine meets_call.mpr ⟨.inl hfailed, fun b _ => ?_⟩
    obtain ⟨reply, moment⟩ := b
    cases reply with
    | ok => exact ⟨rfl, .inl ⟨hfailed, hpast⟩⟩
    | error => exact ⟨rfl, .inl ⟨rfl, hpast⟩⟩
  · have htaken := hr.tail (.take (hs.trans (nil_append _).symm))
    rw [meets_bind]
    refine meets_call.mpr ⟨.inr ⟨_, _, htaken, rfl⟩, fun a ha => ?_⟩
    have hread := htaken.tail (.read a ha.2)
    rw [meets_bind]
    refine meets_call.mpr ⟨.inr ⟨_, _, hread, rfl⟩, fun b hb => ?_⟩
    obtain ⟨reply, moment⟩ := b
    cases reply with
    | error => exact ⟨rfl, .inl ⟨rfl, ⟨_, _, hread, hp ▸ prefix_refl _⟩⟩⟩
    | ok =>
      obtain hok | ⟨message, hok⟩ := hb.1
      · have hrun := (exec_finish_ok hok.symm).1
        have hdone := hread.tail (.sweep rfl hrun
          (Nat.min_le_right ((r.nowSecs? a.reply).getD i64Max) i64Max))
        refine ⟨rfl, .inr ⟨_, hdone, rfl, hp, ?_⟩⟩
        obtain h | h | h := hhand
        · exact .inl h
        · exact .inr (.inl (Bool.or_eq_true_iff.mpr (.inl h)))
        · exact .inr (.inr h)
      · cases hok

theorem sweep_walks (h : Swept r law w₀ s s.slots k) :
    r.sweep.Meets (observer r law w₀) (fun _ s' k' => Swept r law w₀ s' [] k' ∧ s'.slots = []) err
      s k := by
  unfold sweep
  rw [meets_bind]
  refine (killWhere_walks (fun h => h.shown) (fun a ha h => h.read a ha)
    (fun hkeys h => h.mark hkeys) h).mono ?_ fun _ _ _ h => h
  rintro _ s' k' ⟨hs, h'⟩
  rw [meets_bind, meets_get, meets_bind, meets_update]
  refine (meets_forEach (I := fun rest s' k' => s'.slots = [] ∧ Swept r law w₀ s' rest k') ?_
    ⟨rfl, ?_⟩).mono (fun _ _ _ h => ⟨h.2, h.1⟩) fun _ _ _ h => h
  · rintro slot rest s'' k'' ⟨hs'', h''⟩
    refine (sweepOne_walks h'').mono ?_ fun _ _ _ h => h
    rintro _ s3 k3 ⟨hs3, h3⟩
    exact ⟨hs3.trans hs'', h3⟩
  · rw [hs]
    exact h'

/-- how a run can have ended -/
def Ended (r : LoopRunner) (law : Seen → (q : Query) → Answer q → Prop) (w₀ : World)
    (result : Except Fatal LoopRunner.LoopSummary) (s : LoopState) (k : Seen) : Prop :=
  match result with
  | .ok summary => At r law w₀ s 0 [] k ∧ s.slots = [] ∧ summary.counters = s.counters
  | .error .panicked => Swept r law w₀ s s.slots k
  | .error (.error _) => Swept r law w₀ s [] k

theorem conclude_walks {result : Except Fatal Unit}
    (h : match result with
      | .ok () => At r law w₀ s 0 [] k ∧ s.slots = []
      | .error e => Broken r law w₀ e s k) :
    (r.conclude result).Meets (observer r law w₀) (fun summary => Ended r law w₀ (.ok summary))
      (fun e => Ended r law w₀ (.error e)) s k := by
  unfold conclude
  cases result with
  | ok =>
    obtain ⟨hat, hs⟩ := h
    show summary.Meets _ _ _ _ _
    unfold summary
    rw [meets_bind]
    refine meets_call.mpr ⟨hat.near.shown, fun a ha => ?_⟩
    exact ⟨hat.step (.read a ha.2), hs, rfl⟩
  | error e =>
    cases e with
    | panicked => exact h
    | error =>
      have hswept : Swept r law w₀ s s.slots k := h
      rw [meets_bind, meets_get]
      split_ifs with hempty
      · rw [meets_bind]
        refine (sweep_walks hswept).mono ?_ fun _ _ _ h => h
        rintro _ s' k' ⟨h', -⟩
        exact h'
      · have hs : s.slots = [] := by simpa using hempty
        rw [hs] at hswept
        exact hswept

theorem run_walks (n : Nat) (hat : At r law w₀ r.initial 0 [] k) :
    (r.run n).Keeps (observer r law w₀)
      (fun res k' => match res with
        | .inl s => At r law w₀ s 0 [] k'
        | .inr (result, s) => Ended r law w₀ result s k') k := by
  refine r.run_keeps (E := fun result s k => match result with
    | .ok () => At r law w₀ s 0 [] k ∧ s.slots = []
    | .error e => Broken r law w₀ e s k) (fun _ => .inr hat.left) ?_ ?_ n hat
  · intro s k hat
    refine (round_walks hat).mono ?_ fun _ _ _ h => h
    rintro done s' k' ⟨hat', hempty⟩
    cases done with
    | false => exact hat'
    | true => exact ⟨hat', hempty rfl⟩
  · exact fun result s k h => conclude_walks h

theorem observer_expected {l : List (Sigma Answer)} (h : (books r law).Expected k l) :
    (observer r law w₀).Expected k l := by
  induction l generalizing k with
  | nil => trivial
  | cons e l ih => exact ⟨h.1, ih h.2⟩

theorem Ended.shown {result : Except Fatal LoopRunner.LoopSummary} (h : Ended r law w₀ result s k) :
    Shown r law w₀ k := by
  match result, h with
  | .ok _, ⟨hat, _⟩ => exact hat.near.shown
  | .error .panicked, h => exact Swept.shown h
  | .error (.error _), h => exact Swept.shown h

section
variable {σ : Type} {h : σ → (q : Query) → Answer q × σ} {t : σ}

theorem run_ended (hat : At r law w₀ r.initial 0 [] k)
    (hserved : (books r law).Expected k ((r.run n).trace h t)) :
    match ((r.run n).run h t).1 with
    | .inl s => At r law w₀ s 0 [] ((books r law).after k ((r.run n).trace h t))
    | .inr (result, s) => Ended r law w₀ result s ((books r law).after k ((r.run n).trace h t)) :=
  (run_walks n hat).run_expected (observer_expected hserved)

theorem run_shown (hat : At r law w₀ r.initial 0 [] k)
    (hserved : (books r law).Expected k ((r.run n).trace h t)) {before : List (Sigma Answer)}
    (hb : before <+: (r.run n).trace h t) : Shown r law w₀ ((books r law).after k before) := by
  have hpermitted := (run_walks n hat).permitted (observer_expected hserved)
  refine hpermitted.moment (fun _ _ h => h) ?_ hb
  have hended := run_ended hat hserved
  revert hended
  cases ((r.run n).run h t).1 with
  | inl => exact fun hat' => hat'.near.shown
  | inr => exact fun hended => hended.shown

end

end Campaign

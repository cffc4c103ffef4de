import Orchestraitor.Campaign.LoopSeal
import Orchestraitor.Campaign.LoopSignals

/-!
# How long a drain takes

The runner against a clock: its own calls take no time, a wait at most its tick, and a worker that was
aborted before a wait is finished after it.  From a round on in which a stop is declared, the loop ends
within two ticks of the drain deadline: one until the drain step meets the deadline and aborts what is
left, and one until these workers are reaped.
-/

namespace Campaign
open Base CallState List Calls
open LoopRunner hiding pass round run

/-- what the clock shows of a run: the time of the last call and how long that call may take, the workers
that were aborted and those that are finished since the last wait, and the number of waits -/
structure Watch where
  time : Nat := 0
  slack : Option Nat := none
  aborted : List Handle := []
  due : List Handle := []
  waits : Nat := 0

def Query.lasts : Query → Option Nat
  | .now | .store _ | .dailySpend _ | .isFinished _ | .join _ | .abort _ | .beat _
  | .borrowAndUpdate => some 0
  | .tick duration _ | .sleep duration => some duration
  | _ => none

namespace Watch

def next (k : Watch) (q : Query) (a : Answer q) : Watch :=
  { time := a.moment.elapsed
    slack := q.lasts
    aborted := match q with
      | .abort process => process :: k.aborted
      | _ => k.aborted
    due := match q with
      | .tick .. | .sleep _ => k.aborted
      | _ => k.due
    waits := match q with
      | .tick .. | .sleep _ => k.waits + 1
      | _ => k.waits }

/-- the next call is made by `deadline` -/
def By (k : Watch) (deadline : Nat) : Prop := ∃ d, k.slack = some d ∧ k.time + d ≤ deadline

theorem By.mono {k : Watch} {deadline deadline' : Nat} (h : k.By deadline)
    (hle : deadline ≤ deadline') : k.By deadline' := by
  obtain ⟨d, hslack, hd⟩ := h
  exact ⟨d, hslack, hd.trans hle⟩

end Watch

/-- the clock shows the time, far from the largest `Duration`, and an aborted worker is finished after
the next wait -/
def smooth (r : LoopRunner) (k : Watch) : (q : Query) → Answer q → Bool
  | .now, a => a.reply = a.moment.elapsed && a.reply + r.config.shutdownBudget ≤ durationMax
  | .isFinished process, a => !k.due.contains process || a.reply
  | _, _ => true

variable {r : LoopRunner} {k : Watch}

theorem smooth_now {a : Answer .now} (h : smooth r k .now a = true) :
    a.reply = a.moment.elapsed ∧ a.reply + r.config.shutdownBudget ≤ durationMax := by
  simpa [smooth] using h

theorem smooth_isFinished {process : Handle} {a : Answer (.isFinished process)}
    (h : smooth r k (.isFinished process) a = true) (hdue : process ∈ k.due) : a.reply = true := by
  simpa [smooth, hdue] using h

def stopwatch (r : LoopRunner) : Calls.Monitor Answer Watch :=
  { permits := fun _ _ => True
    expects := fun k q a => (k.time ≤ a.moment.elapsed ∧
      ∀ d ∈ k.slack, a.moment.elapsed ≤ k.time + d) ∧ smooth r k q a = true
    next := Watch.next }

instance (r : LoopRunner) (k : Watch) (q : Query) (a : Answer q) :
    Decidable ((stopwatch r).expects k q a) :=
  inferInstanceAs (Decidable ((_ ∧ ∀ d ∈ k.slack, _) ∧ _))

/-- every worker in a slot is among those -/
def Among (s : LoopState) (processes : List Handle) : Prop :=
  ∀ slot ∈ s.slots, slot.process ∈ processes

def Marked (s : LoopState) (aborted : List Handle) : Prop :=
  ∀ slot ∈ s.slots, slot.intent.isSome = true → slot.process ∈ aborted

section
variable {r : LoopRunner} {α β : Type} {s : LoopState} {k : Watch} {T : Nat}

/-- calls that take no time -/
def Query.isInstant : Query → Prop
  | .now | .store _ | .dailySpend _ | .isFinished _ | .join _ | .abort _ | .beat _
  | .borrowAndUpdate => True
  | _ => False

/-- the next call comes by `T`; at least as many workers are aborted as in `k`, and as many are due -/
structure Swift (T : Nat) (k k' : Watch) : Prop where
  by_ : k'.By T
  time : k.time ≤ k'.time
  aborted : k.aborted ⊆ k'.aborted
  due : k'.due = k.due
  waits : k'.waits = k.waits

theorem Swift.refl (h : k.By T) : Swift T k k := ⟨h, le_rfl, List.Subset.refl _, rfl, rfl⟩

theorem Swift.trans {k1 k2 : Watch} (h : Swift T k k1) (h' : Swift T k1 k2) : Swift T k k2 :=
  ⟨h'.by_, h.time.trans h'.time, List.Subset.trans h.aborted h'.aborted, h'.due.trans h.due,
    h'.waits.trans h.waits⟩

variable {q : Query} {a : Answer q} {post : α → LoopState → Watch → Prop} {x : RunM α} {e : Nat}

theorem swift_next (hq : q.isInstant) (hk : k.By T) (ha : (stopwatch r).expects k q a) :
    Swift T k ((stopwatch r).next k q a) ∧ a.moment.elapsed ≤ T := by
  obtain ⟨d, hslack, hle⟩ := hk
  have hmade : a.moment.elapsed ≤ T := (ha.1.2 d hslack).trans hle
  have hlasts : q.lasts = some 0 := by
    cases q <;> first | rfl | exact hq.elim
  refine ⟨⟨⟨0, hlasts, hmade⟩, ha.1.1, ?_, ?_, ?_⟩, hmade⟩
  · show k.aborted ⊆ (k.next q a).aborted
    cases q <;> first | exact List.Subset.refl _ | exact subset_cons_self _ _
  · show (k.next q a).due = k.due
    cases q <;> first | rfl | exact hq.elim
  · show (k.next q a).waits = k.waits
    cases q <;> first | rfl | exact hq.elim

abbrev Runs (r : LoopRunner) (T : Nat) (post : α → LoopState → Watch → Prop) (x : RunM α)
    (s : LoopState) (k : Watch) : Prop :=
  x.Meets (stopwatch r) (fun a s' k' => post a s' k' ∧ Swift T k k')
    (fun e _ k' => e ≠ .panicked ∧ k'.By T) s k

theorem Runs.bind {post' : β → LoopState → Watch → Prop} {x : RunM β} {f : β → RunM α}
    (hx : Runs r T post' x s k)
    (hf : ∀ b s' k', post' b s' k' → Swift T k k' → Runs r T post (f b) s' k') :
    Runs r T post (x >>= f) s k := by
  refine meets_bind.mpr (hx.mono ?_ fun _ _ _ h => h)
  rintro b s' k' ⟨hb, hswift⟩
  refine (hf b s' k' hb hswift).mono ?_ fun _ _ _ h => h
  rintro a s'' k'' ⟨ha, hswift'⟩
  exact ⟨ha, hswift.trans hswift'⟩

theorem Runs.imp {post' : α → LoopState → Watch → Prop} (hx : Runs r T post x s k)
    (h : ∀ a s' k', post a s' k' → Swift T k k' → post' a s' k') : Runs r T post' x s k :=
  Meets.mono hx (fun a s' k' h' => ⟨h a s' k' h'.1 h'.2, h'.2⟩) fun _ _ _ h => h

theorem runs_pure {a : α} (hk : k.By T) (h : post a s k) :
    Runs r T post (pure a) s k := ⟨h, .refl hk⟩

theorem runs_update {f : LoopState → LoopState} {post : Unit → LoopState → Watch → Prop}
    (hk : k.By T) (h : post () (f s) k) : Runs r T post (update f) s k := ⟨h, .refl hk⟩

theorem runs_get_bind {f : LoopState → RunM α} :
    Runs r T post (get >>= f) s k ↔ Runs r T post (f s) s k := Iff.rfl

theorem runs_update_bind {g : LoopState → LoopState} {f : Unit → RunM α} :
    Runs r T post (update g >>= f) s k ↔ Runs r T post (f ()) (g s) k := Iff.rfl

theorem runs_call {post : Reply q → LoopState → Watch → Prop} (hq : q.isInstant) (hk : k.By T) (h :
      ∀ a, smooth r k q a = true → a.moment.elapsed ≤ T → Swift T k ((stopwatch r).next k q a) →
      post a.reply s ((stopwatch r).next k q a)) : Runs r T post (call q) s k := by
  refine meets_call.mpr ⟨trivial, fun a ha => ?_⟩
  obtain ⟨hswift, hmade⟩ := swift_next hq hk ha
  exact ⟨h a ha.2 hmade hswift, hswift⟩

theorem Runs.stays {P : Query → Prop} {R : LoopState → Prop} (hx : Runs r T post x s k)
    (hR : x.Stays P R) (hs : R s) : Runs r T (fun a s' k' => post a s' k' ∧ R s') x s k := by
  have hframe : x.Meets (stopwatch r) (fun _ s' _ => R s' ∧ True) (fun _ s' _ => R s' ∧ True) s k :=
    hR.meets (fun _ _ _ _ => ⟨trivial, fun _ _ => trivial⟩) hs trivial
  refine (Meets.and hx hframe).mono ?_ fun _ _ _ h => h.1
  rintro a s' k' ⟨⟨ha, hswift⟩, hs', -⟩
  exact ⟨⟨ha, hs'⟩, hswift⟩

abbrev AtOnce (r : LoopRunner) (T : Nat) (x : RunM α) (s : LoopState) (k : Watch) : Prop :=
  Runs r T (fun _ _ _ => True) x s k

theorem AtOnce.bind {x : RunM β} {f : β → RunM α} (hx : AtOnce r T x s k)
    (hf : ∀ b s' k', k'.By T → AtOnce r T (f b) s' k') : AtOnce r T (x >>= f) s k :=
  Runs.bind hx fun b s' k' _ hswift => hf b s' k' hswift.by_

theorem atOnce_call (hq : q.isInstant) (hk : k.By T) : AtOnce r T (call q) s k :=
  runs_call hq hk fun _ _ _ _ => trivial

theorem atOnce_forEach {f : β → RunM Unit} (hf : ∀ b s k, k.By T → AtOnce r T (f b) s k)
    (l : List β) (hk : k.By T) : AtOnce r T (forEach l f) s k := by
  induction l generalizing s k with
  | nil => exact runs_pure hk trivial
  | cons b l ih => exact (hf b s k hk).bind fun _ _ _ hk' => ih hk'

theorem atOnce_storeCall {op : StoreOp} (hk : k.By T) : AtOnce r T (storeCall op) s k := by
  refine (atOnce_call (q := .store op) trivial hk).bind fun reply s' k' hk' => ?_
  cases reply with
  | ok => exact runs_pure hk' trivial
  | error => exact ⟨nofun, hk'⟩

theorem runs_now (hk : k.By T) : Runs r T (fun e s' k' => s' = s ∧ k'.By e ∧ k.time ≤ e ∧ e ≤ T ∧
    e + r.config.shutdownBudget ≤ durationMax) (call .now) s k := by
  refine runs_call (q := .now) trivial hk fun a ha hmade hswift => ?_
  obtain ⟨hread, hfits⟩ := smooth_now ha
  have htime : k.time ≤ a.moment.elapsed := hswift.time
  exact ⟨rfl, ⟨0, rfl, hread.ge⟩, hread ▸ htime, hread ▸ hmade, hfits⟩

theorem atOnce_nowSecs (hk : k.By T) : AtOnce r T (r.nowSecs e) s k := by
  unfold nowSecs
  split
  · exact runs_pure hk trivial
  · exact ⟨nofun, hk⟩

/-! ## supervision -/

theorem recordTaskOutcome_atOnce {taskId cls : String} {status : RunRowStatus} {noProgress : Bool}
    {now : Nat} (hk : k.By T) :
    AtOnce r T (r.recordTaskOutcome taskId status cls noProgress now) s k := by
  unfold recordTaskOutcome
  cases status with
  | completed => exact (atOnce_storeCall hk).bind fun _ _ _ hk' => runs_pure hk' trivial
  | failed | stalled | timedOut =>
    refine (atOnce_storeCall hk).bind fun _ _ _ hk' => ?_
    split_ifs
    · exact runs_pure hk' trivial
    · refine (atOnce_storeCall hk').bind fun state _ _ hk'' => ?_
      split_ifs <;> exact runs_pure hk'' trivial
  | abortedShutdown | stuck | running | orphaned | paused => exact runs_pure hk trivial

theorem reapOne_atOnce {slot : Slot} (hk : k.By T) : AtOnce r T (r.reapOne slot) s k := by
  unfold reapOne
  refine (atOnce_call (by trivial) hk).bind fun outcome s1 k1 hk1 => ?_
  obtain ⟨status, detail, completed⟩ := arbitrate outcome slot.intent
  refine (runs_now hk1).bind fun e s2 k2 he hswift => ?_
  refine (atOnce_nowSecs hswift.by_).bind fun now s3 k3 hk3 => ?_
  refine AtOnce.bind ?_ fun final s4 k4 hk4 => runs_pure hk4 trivial
  unfold settle
  refine (recordTaskOutcome_atOnce hk3).bind fun exhausted _ _ hk4 => ?_
  exact (atOnce_storeCall hk4).bind fun _ _ _ hk5 => runs_pure hk5 trivial

theorem reapFrom_atOnce (kept rest : List Slot) (hk : k.By T) :
    AtOnce r T (r.reapFrom kept rest) s k := by
  induction rest generalizing kept s k with
  | nil => exact runs_pure hk trivial
  | cons _ _ ih =>
    refine (atOnce_call (by trivial) hk).bind fun finished s1 k1 hk1 => ?_
    cases finished with
    | false => exact ih _ hk1
    | true =>
      simp only [if_true]
      refine AtOnce.bind (runs_update hk1 trivial) fun _ s2 k2 hk2 => ?_
      refine (reapOne_atOnce hk2).bind fun reaped s3 k3 hk3 => ?_
      exact (ih _ hk3).bind fun others s4 k4 hk4 => runs_pure hk4 trivial

theorem recordReaps_atOnce (hk : k.By T) : AtOnce r T r.recordReaps s k := by
  have hreap : AtOnce r T r.reapFinished s k :=
    runs_get_bind.mpr (reapFrom_atOnce _ _ hk)
  refine hreap.bind fun results _ _ hk' => atOnce_forEach (fun reaped s k hk => ?_) results hk'
  exact runs_update hk trivial

theorem reapFrom_empties (rest : List Slot) (hdue : ∀ slot ∈ rest, slot.process ∈ k.due)
    (hs : s.slots = rest) (hk : k.By T) :
    Runs r T (fun _ s' _ => s'.slots = []) (r.reapFrom [] rest) s k := by
  induction rest generalizing s k with
  | nil => exact runs_pure hk hs
  | cons slot rest ih =>
    have hfinished : Runs r T (fun finished _ _ => finished = true)
        (call (.isFinished slot.process)) s k :=
      runs_call (q := .isFinished slot.process) trivial hk fun _ ha _ _ =>
        smooth_isFinished ha (hdue slot mem_cons_self)
    refine hfinished.bind fun finished s1 k1 h1 hswift1 => ?_
    subst h1
    simp only [if_true]
    refine runs_update_bind.mpr ?_
    have hone : Runs r T (fun _ s' _ => True ∧ s'.slots = rest) (r.reapOne slot)
        { s1 with slots := [] ++ rest } k1 := (reapOne_atOnce hswift1.by_).stays reapOne_stays rfl
    refine hone.bind fun reaped s2 k2 h2 hswift2 => ?_
    refine Runs.bind (ih ?_ h2.2 hswift2.by_) fun others s3 k3 h3 hswift3 => runs_pure hswift3.by_ h3
    intro slot' hslot'
    rw [hswift2.due, hswift1.due]
    exact hdue slot' (mem_cons_of_mem _ hslot')

theorem recordReaps_empties (hdue : Among s k.due) (hk : k.By T) :
    Runs r T (fun _ s' _ => s'.slots = []) r.recordReaps s k := by
  have hreap : Runs r T (fun _ s' _ => s'.slots = []) r.reapFinished s k := by
    exact runs_get_bind.mpr (reapFrom_empties _ hdue rfl hk)
  refine hreap.bind fun results s1 k1 hs1 hswift => ?_
  have hlog : ∀ reaped : Reaped, (update fun s => { s with
      counters := s.counters.note reaped
      slotReleasedSincePass := true
      events := s.events ++ [reaped.event] } : RunM Unit).Stays Query.supervises
        fun s => s.slots = [] := fun _ => stays_update fun _ h => h
  have honce := (atOnce_forEach (r := r) (s := s1) (fun _ _ _ hk => runs_update hk trivial) results
    hswift.by_).stays (stays_forEach hlog results) hs1
  exact honce.imp fun _ _ _ h _ => h.2

/-! ### kills -/

theorem Marked.mono {aborted aborted' : List Handle} (h : Marked s aborted)
    (hsub : aborted ⊆ aborted') : Marked s aborted' := fun slot hslot hintent =>
  hsub (h slot hslot hintent)

theorem marked_elsewhere {aborted : List Handle} : Elsewhere (Marked · aborted) := by
  intro _ _ _ _ hslots h
  unfold Marked
  rw [hslots]
  exact h

theorem marked_shrinking {aborted : List Handle} : Shrinking (Marked · aborted) :=
  fun _ _ _ hs _ hsub slot hslot => hs slot (hsub hslot)

theorem runs_aborts (l : List Slot) (hk : k.By T) :
    Runs r T (fun _ s' k' => s' = s ∧ ∀ slot ∈ l, slot.process ∈ k'.aborted)
      (forEach l fun slot => do let _ ← call (.abort slot.process)) s k := by
  induction l generalizing s k with
  | nil => exact runs_pure hk ⟨rfl, nofun⟩
  | cons slot l ih =>
    have habort : Runs r T (fun _ s' k' => s' = s ∧ slot.process ∈ k'.aborted)
        (do let _ ← call (.abort slot.process)) s k := by
      have hcall : Runs r T (fun _ s' k' => s' = s ∧ slot.process ∈ k'.aborted)
          (call (.abort slot.process)) s k :=
        runs_call (q := .abort slot.process) trivial hk fun _ _ _ _ => ⟨rfl, mem_cons_self⟩
      exact hcall.bind fun _ s1 k1 h1 hswift => runs_pure hswift.by_ h1
    refine Runs.bind habort fun _ s1 k1 h1 hswift1 => ?_
    obtain ⟨rfl, hmem⟩ := h1
    refine (ih hswift1.by_).imp fun _ s2 k2 h2 hswift2 => ⟨h2.1, fun slot' hslot' => ?_⟩
    obtain rfl | hslot' := mem_cons.mp hslot'
    · exact hswift2.aborted hmem
    · exact h2.2 slot' hslot'

def intended (p : Slot → Nat → Bool) (intent : StopIntent) (e : Nat) (slots : List Slot) : List Slot :=
  slots.map fun slot => if p slot e then { slot with intent := some intent } else slot

theorem killWhere_runs {p : Slot → Nat → Bool} {intent : StopIntent} (hk : k.By T) :
    Runs r T (fun _ s' k' => ∃ e, s' = { s with slots := intended p intent e s.slots } ∧
      ∀ slot ∈ s.slots, p slot e = true → slot.process ∈ k'.aborted) (killWhere p intent) s k := by
  unfold killWhere
  refine (runs_now hk).bind fun e s1 k1 h1 hswift1 => ?_
  obtain ⟨rfl, -⟩ := h1
  refine runs_get_bind.mpr (runs_update_bind.mpr ?_)
  refine (runs_aborts _ hswift1.by_).imp fun _ s' k' h _ => ⟨e, h.1, fun slot hslot hp => ?_⟩
  exact h.2 slot (mem_filter.mpr ⟨hslot, hp⟩)

theorem killWhere_marked {p : Slot → Nat → Bool} {intent : StopIntent} (h : Marked s k.aborted)
    (hk : k.By T) : Runs r T (fun _ s' k' => Marked s' k'.aborted ∧ (s.slots = [] → s'.slots = []))
      (killWhere p intent) s k := by
  refine (killWhere_runs hk).imp ?_
  rintro _ s' k' ⟨e, rfl, haborted⟩ hswift
  refine ⟨fun slot hslot hintent => ?_, fun hs => by simp [hs, intended]⟩
  obtain ⟨old, hold, rfl⟩ := mem_map.mp hslot
  split_ifs at hintent ⊢ with hp
  · exact haborted old hold hp
  · exact hswift.aborted (h old hold hintent)

theorem freshBeats_runs (slots : List Slot) (hk : k.By T) :
    Runs r T (fun res s' _ => s' = s ∧ res.1.map (fun slot => (slot.intent, slot.process)) =
      slots.map fun slot => (slot.intent, slot.process)) (freshBeats e slots) s k := by
  induction slots generalizing s k with
  | nil => exact runs_pure hk ⟨rfl, rfl⟩
  | cons slot _ ih =>
    have hbeat : Runs r T (fun _ s' _ => s' = s) (call (.beat slot.process)) s k :=
      runs_call (q := .beat slot.process) trivial hk fun _ _ _ _ => rfl
    refine hbeat.bind fun fresh s1 k1 h1 hswift1 => ?_
    subst h1
    refine (ih hswift1.by_).bind fun res s2 k2 h2 hswift2 => ?_
    obtain ⟨rfl, hres⟩ := h2
    cases fresh with
    | some | none => exact runs_pure hswift2.by_ ⟨rfl, congrArg (_ :: ·) hres⟩

theorem marked_of_map {s' : LoopState} {aborted : List Handle}
    (hmap : s'.slots.map (fun slot => (slot.intent, slot.process)) =
      s.slots.map fun slot => (slot.intent, slot.process)) (h : Marked s aborted) :
    Marked s' aborted := by
  intro slot hslot hintent
  have hmem : (slot.intent, slot.process) ∈ s.slots.map fun slot => (slot.intent, slot.process) :=
    hmap ▸ mem_map_of_mem hslot
  obtain ⟨old, hold, heq⟩ := mem_map.mp hmem
  obtain ⟨hi, hp⟩ := Prod.mk.inj heq
  exact hp ▸ h old hold (hi ▸ hintent)

theorem recordReaps_runs (h : Marked s k.aborted) (hk : k.By T) :
    Runs r T (fun _ s' k' => Marked s' k'.aborted ∧
      (Among s k.due → s'.slots = [])) r.recordReaps s k := by
  have hmarked : Runs r T (fun _ s' _ => True ∧ Marked s' k.aborted) r.recordReaps s k :=
    (recordReaps_atOnce hk).stays (recordReaps_stays marked_elsewhere marked_shrinking) h
  by_cases hdue : Among s k.due
  · refine (Meets.and hmarked (recordReaps_empties hdue hk)).mono ?_ fun _ _ _ h => h.1
    rintro _ s' k' ⟨⟨⟨-, hm⟩, hswift⟩, hempty, -⟩
    exact ⟨⟨hm.mono hswift.aborted, fun _ => hempty⟩, hswift⟩
  · exact hmarked.imp fun _ s' k' h hswift =>
      ⟨h.2.mono hswift.aborted, fun h => absurd h hdue⟩

theorem supervise_runs (h : Marked s k.aborted) (hk : k.By T) :
    Runs r T (fun _ s' k' => Marked s' k'.aborted ∧ s'.cells = s.cells ∧
      (Among s k.due → s'.slots = [])) r.supervise s k := by
  have hruns : Runs r T (fun _ s' k' => Marked s' k'.aborted ∧
      (Among s k.due → s'.slots = [])) r.supervise s k := by
    unfold supervise
    refine (recordReaps_runs h hk).bind fun _ s1 k1 h1 hswift1 => ?_
    refine (runs_now hswift1.by_).bind fun e s2 k2 h2 hswift2 => ?_
    obtain ⟨rfl, -⟩ := h2
    refine runs_get_bind.mpr ((freshBeats_runs _ hswift2.by_).bind fun res s3 k3 h3 hswift3 => ?_)
    obtain ⟨rfl, hmap⟩ := h3
    refine runs_update_bind.mpr ?_
    -- from here to the kills nothing is written to the state
    generalize hstamped : ({ s3 with slots := res.1 } : LoopState) = stamped
    have hslots : stamped.slots = res.1 := hstamped ▸ rfl
    have hempty : s3.slots = [] → stamped.slots = [] := by
      intro hs
      rw [hs, map_nil, map_eq_nil_iff] at hmap
      exact hslots.trans hmap
    have hsecs : Runs r T (fun _ s' _ => True ∧ s' = stamped) (r.nowSecs e) stamped k3 :=
      (atOnce_nowSecs hswift3.by_).stays (P := Query.supervises) stays_nowSecs rfl
    refine hsecs.bind fun now s4 k4 h4 hswift4 => ?_
    rw [h4.2]
    have hbeats : Runs r T (fun _ s' _ => True ∧ s' = stamped)
        (forEach res.2 fun b => storeCall (.heartbeat b.1 b.2 now)) stamped k4 :=
      (atOnce_forEach (fun _ _ _ hk => atOnce_storeCall hk) _ hswift4.by_).stays
        (stays_forEach (P := Query.supervises) (fun _ => stays_storeCall trivial) _) rfl
    refine hbeats.bind fun _ s5 k5 h5 hswift5 => ?_
    rw [h5.2]
    have hmarked : Marked stamped k5.aborted := (marked_of_map (hslots ▸ hmap) h1.1).mono
      (((hswift2.trans hswift3).trans hswift4).trans hswift5).aborted
    refine (killWhere_marked hmarked hswift5.by_).bind fun _ s6 k6 h6 hswift6 => ?_
    refine (killWhere_marked h6.1 hswift6.by_).bind fun _ s7 k7 h7 hswift7 => ?_
    refine (recordReaps_runs h7.1 hswift7.by_).imp fun _ s8 k8 h8 _ => ⟨h8.1, fun hdue => h8.2 ?_⟩
    unfold Among
    rw [h7.2 (h6.2 (hempty (h1.2 hdue)))]
    intro _ hmem
    cases hmem
  have hfixed : Fixed s.cells s.notes s := ⟨rfl, rfl⟩
  exact (hruns.stays supervise_stays hfixed).imp fun _ _ _ h _ => ⟨h.1.1, h.2.1, h.1.2⟩

/-! ## the drain step -/

theorem slots_elsewhere {slots : List Slot} : Elsewhere (·.slots ⊆ slots) := by
  intro s s' _ _ hslots h
  show s'.slots ⊆ slots
  rw [hslots]
  exact h

theorem slots_shrinking {slots : List Slot} : Shrinking (·.slots ⊆ slots) :=
  fun _ _ _ hs _ hsub => List.Subset.trans hsub hs

/-- a drain step at `e`: before the deadline it waits, from the deadline on every worker that is left
has been aborted -/
structure Drained (e : Nat) (s s' : LoopState) (aborted : List Handle) : Prop where
  marked : Marked s' aborted
  stop : s'.stop = s.stop
  empty : s.slots = [] → s'.slots = []
  early : e < s.drainDeadline → s'.slots ≠ [] → s'.drainDeadline = s.drainDeadline
  late : s.drainDeadline ≤ e → s'.slots ≠ [] → Among s' aborted ∧ e ≤ s'.drainDeadline

theorem Runs.by {T' : Nat} (hx : Runs r T post x s k) (hT : T ≤ T') :
    Runs r T' (fun a s' k' => post a s' k' ∧ k'.By T) x s k := by
  refine hx.mono ?_ ?_
  · rintro a s' k' ⟨ha, hswift⟩
    exact ⟨⟨ha, hswift.by_⟩, { hswift with by_ := hswift.by_.mono hT }⟩
  · rintro e s' k' ⟨he, hby⟩
    exact ⟨he, hby.mono hT⟩

theorem drainStep_runs (h : Marked s k.aborted) (hk : k.By T) :
    Runs r T (fun _ s' k' => ∃ e, k.time ≤ e ∧ e ≤ T ∧ k'.By e ∧ Drained e s s' k'.aborted)
      r.drainStep s k := by
  unfold drainStep
  refine (runs_now hk).bind fun e s1 k1 h1 hswift1 => ?_
  obtain ⟨rfl, hk1, htime, he, hfits⟩ := h1
  have hmarked : Marked s1 k1.aborted := h.mono hswift1.aborted
  -- nothing after the reading takes time
  suffices hstep : Runs r e (fun _ s' k' => Drained e s1 s' k'.aborted) _ s1 k1 by
    refine (hstep.by he).mono ?_ fun _ _ _ h => h
    rintro _ s' k' ⟨⟨hd, hby⟩, hswift⟩
    exact ⟨⟨e, htime, he, hby, hd⟩, hswift⟩
  refine runs_get_bind.mpr ?_
  split_ifs with hdue
  · refine (killWhere_runs hk1).bind fun _ s2 k2 h2 hswift2 => ?_
    obtain ⟨e', hs2, hkilled⟩ := h2
    have hall : Among s2 k2.aborted := by
      intro _ hslot
      rw [hs2] at hslot
      obtain ⟨old, hold, rfl⟩ := mem_map.mp hslot
      split_ifs with hnone
      · exact hkilled old hold hnone
      · refine hswift2.aborted (hmarked old hold ?_)
        simpa [Option.isSome_iff_ne_none] using hnone
    have hreaps : Runs r e (fun _ s' _ => (True ∧ s'.slots ⊆ s2.slots) ∧ Fixed s1.cells s1.notes s')
        r.recordReaps s2 k2 :=
      ((recordReaps_atOnce hswift2.by_).stays (recordReaps_stays slots_elsewhere slots_shrinking)
        (List.Subset.refl _)).stays (recordReaps_stays fixed_elsewhere fixed_shrinking) (hs2 ▸ ⟨rfl, rfl⟩)
    refine hreaps.bind fun _ s3 k3 h3 hswift3 => ?_
    obtain ⟨⟨-, hsub⟩, hcells, -⟩ := h3
    have hstop : s3.stop = s1.stop := congrArg Cells.stop hcells
    have hamong : Among s3 k3.aborted := fun slot hslot =>
      hswift3.aborted (hall slot (hsub hslot))
    have hempty : s1.slots = [] → s3.slots = [] := by
      intro hs
      rw [hs2, hs] at hsub
      exact subset_nil.mp hsub
    refine runs_get_bind.mpr ?_
    unfold addDuration
    rw [if_pos hfits]
    split_ifs with hleft
    · refine runs_update hswift3.by_ ⟨fun slot hslot _ => hamong slot hslot, hstop, hempty, ?_, ?_⟩
      · intro hearly hne
        have hnone : s1.slots = [] := by simpa [Nat.not_le.mpr hearly] using hdue
        exact absurd (hempty hnone) hne
      · exact fun _ _ => ⟨hamong, Nat.le_add_right _ _⟩
    · refine runs_update hswift3.by_ ⟨fun slot hslot _ => hamong slot hslot, hstop, hempty, ?_, ?_⟩
      · intro _ hne
        exact absurd (by simpa using hleft) hne
      · intro _ hne
        exact absurd (by simpa using hleft) hne
  · have hdue' : s1.slots ≠ [] ∧ e < s1.drainDeadline := by simpa using hdue
    dsimp only
    refine runs_get_bind.mpr (runs_update hk1 ⟨hmarked, rfl, id, fun _ _ => rfl, fun hle => ?_⟩)
    exact absurd hdue'.2 (Nat.not_lt.mpr hle)

/-! ## the wait -/

/-- what was aborted before a wait is due after it; the signal that it may observe comes at its end -/
structure Waited (r : LoopRunner) (s s' : LoopState) (k k' : Watch) : Prop where
  slots : s'.slots = s.slots
  aborted : k'.aborted = k.aborted
  due : k'.due = k.aborted
  waits : k'.waits = k.waits + 1
  by_ : ∀ e, k.By e → k'.By (e + tickInterval r.config)
  cells : (s'.stop = s.stop ∧ s'.drainDeadline = s.drainDeadline) ∨
    (s'.stop.isSome = true ∧ k'.By k'.time ∧
      Note.Lawful r.config.shutdownBudget (.signal s.stop k'.time s.drainDeadline s'.drainDeadline))

theorem expects_by (ha : (stopwatch r).expects k q a) (hk : k.By e) : a.moment.elapsed ≤ e := by
  obtain ⟨d, hslack, hle⟩ := hk
  exact (ha.1.2 d hslack).trans hle

theorem waitRound_meets (hidle : s.stop = none → s.drainDeadline = durationMax) :
    r.waitRound.Meets (stopwatch r) (fun _ s' k' => Waited r s s' k k') (fun _ _ _ => False) s k := by
  unfold waitRound
  rw [meets_bind, meets_get]
  split_ifs with hgone
  · rw [meets_bind]
    refine meets_call.mpr ⟨trivial, fun a ha => ⟨rfl, rfl, rfl, rfl, fun e hk => ?_, .inl ⟨rfl, rfl⟩⟩⟩
    exact ⟨_, rfl, Nat.add_le_add_right (expects_by ha hk) _⟩
  · refine waitTick_meets (fun _ _ _ => trivial) hidle ?_ ?_
    · intro _ ha _ hcells _ hslots
      refine ⟨hslots, rfl, rfl, rfl, fun e hk => ?_, .inl ⟨congrArg Cells.stop hcells,
        congrArg Cells.drainDeadline hcells⟩⟩
      exact ⟨_, rfl, Nat.add_le_add_right (expects_by ha hk) _⟩
    · intro a ha b hb c hc
      obtain ⟨hread, hfits⟩ := smooth_now hc.2
      constructor
      · intro _ ho
        refine ⟨ho.slots, rfl, rfl, rfl, fun e hk => ?_, .inr ⟨ho.stop, ⟨0, rfl, le_rfl⟩, ?_⟩⟩
        · have htick : ((stopwatch r).next k (.tick (tickInterval r.config) s.seenByRun) a).By
              (e + tickInterval r.config) :=
            ⟨_, rfl, Nat.add_le_add_right (expects_by ha hk) _⟩
          have hseen := expects_by hb htick
          exact ⟨0, rfl, expects_by hc ⟨0, rfl, hseen⟩⟩
        · have hlawful := ho.lawful
          rw [hread] at hlawful
          exact hlawful
      · intro _ _ _ hlate
        exact absurd hfits (Nat.not_le.mpr hlate)

/-! ## the rounds of a drain -/

/-- The loop is close to its end when `deadline` is a drain deadline: either the deadline has not passed
for more than a tick and the next drain step after it aborts what is left; or all workers that are left
were aborted by then, and are reaped in the next round. -/
def Close (r : LoopRunner) (deadline : Nat) (s : LoopState) (k : Watch) : Prop :=
  (k.By (deadline + tickInterval r.config) ∧
    (s.drainDeadline ≤ deadline ∨ s.drainDeadline ≤ k.time)) ∨
  (k.By (deadline + 2 * tickInterval r.config) ∧ Among s k.due)

/-- between two rounds -/
structure Boundary (r : LoopRunner) (s : LoopState) (k : Watch) : Prop where
  marked : Marked s k.aborted
  idle : s.stop = none → s.drainDeadline = durationMax
  close : s.stop.isSome = true → Close r s.drainDeadline s k

/-- before the wait of a round that did not drain -/
structure Settled (s : LoopState) (k : Watch) : Prop where
  marked : Marked s k.aborted
  idle : s.stop = none → s.drainDeadline = durationMax
  by_ : s.stop.isSome = true → k.By s.drainDeadline

theorem By.time_le (h : k.By e) : k.time ≤ e := by
  obtain ⟨d, -, hle⟩ := h
  omega

namespace Waited
variable {s' : LoopState} {k' : Watch} {e deadline : Nat}

theorem marked (hw : Waited r s s' k k') (h : Marked s k.aborted) : Marked s' k'.aborted := by
  intro slot hslot hintent
  rw [hw.aborted]
  exact h slot (hw.slots ▸ hslot) hintent

theorem stop (hw : Waited r s s' k k') (hstop : s.stop.isSome = true) : s'.stop.isSome = true := by
  obtain ⟨hsame, -⟩ | ⟨hsome, -⟩ := hw.cells
  · rwa [hsame]
  · exact hsome

/-- a signal while the loop drains moves the deadline to the end of the wait, or not later -/
theorem drainDeadline (hw : Waited r s s' k k') (hstop : s.stop.isSome = true) :
    s'.drainDeadline = s.drainDeadline ∨ k'.By k'.time ∧ (s'.drainDeadline = k'.time ∨
      s'.drainDeadline = min s.drainDeadline (k'.time + r.config.shutdownBudget)) := by
  refine hw.cells.imp And.right fun hcells => ⟨hcells.2.1, ?_⟩
  have hlawful := hcells.2.2
  obtain ⟨reason, hreason⟩ := Option.isSome_iff_exists.mp hstop
  rw [hreason] at hlawful
  cases reason with
  | shutdown => exact .inl hlawful
  | _ => exact .inr hlawful

theorem by_deadline (hw : Waited r s s' k k') (hk : k.By e) (he : e ≤ s.drainDeadline)
    (hstop : s.stop.isSome = true) : k'.By (s'.drainDeadline + tickInterval r.config) := by
  have hby := hw.by_ e hk
  have htime := By.time_le hby
  obtain hsame | ⟨hnow, hafter⟩ := hw.drainDeadline hstop
  · exact hby.mono (by omega)
  · exact hnow.mono (by omega)

theorem early (hw : Waited r s s' k k') (hk : k.By e) (he : e ≤ s.drainDeadline)
    (hstop : s.stop.isSome = true) (hd : s.drainDeadline ≤ deadline) : Close r deadline s' k' := by
  refine .inl ⟨(hw.by_ e hk).mono (by omega), ?_⟩
  have hafter := hw.drainDeadline hstop
  omega

theorem late (hw : Waited r s s' k k') (hk : k.By e) (hall : Among s k.aborted)
    (hd : e ≤ deadline + tickInterval r.config) : Close r deadline s' k' := by
  refine .inr ⟨(hw.by_ e hk).mono (by omega), ?_⟩
  intro slot hslot
  rw [hw.due]
  exact hall slot (hw.slots ▸ hslot)

theorem boundary (hw : Waited r s s' k k') (h : Settled s k) : Boundary r s' k' := by
  refine ⟨hw.marked h.marked, ?_, fun hsome' => ?_⟩
  · intro hnone
    obtain ⟨hsame, hdeadline⟩ | ⟨hsome, -⟩ := hw.cells
    · rw [hdeadline]
      exact h.idle (hsame ▸ hnone)
    · rw [hnone] at hsome
      cases hsome
  · cases hstop : s.stop with
    | some =>
      have hsome : s.stop.isSome = true := by rw [hstop]; rfl
      exact .inl ⟨hw.by_deadline (h.by_ hsome) le_rfl hsome, .inl le_rfl⟩
    | none =>
      obtain ⟨hsame, -⟩ | ⟨-, hnow, hlawful⟩ := hw.cells
      · rw [hsame, hstop] at hsome'
        cases hsome'
      · rw [hstop] at hlawful
        have hafter : s'.drainDeadline = k'.time + r.config.shutdownBudget := hlawful.2.1
        exact .inl ⟨hnow.mono (by omega), .inl le_rfl⟩

end Waited

theorem drainRound_meets (h : Marked s k.aborted) (hstop : s.stop.isSome = true) (hk : k.By e) :
    (do
      r.drainStep
      if (← get).slots.isEmpty then pure true
      else
        r.waitRound
        pure false : RunM Bool).Meets (stopwatch r)
      (fun done s' k' => if done then k'.By e else
        s.slots ≠ [] ∧ s'.stop.isSome = true ∧ k.waits < k'.waits ∧ Boundary r s' k' ∧
          ∀ deadline, e ≤ deadline + tickInterval r.config →
            (s.drainDeadline ≤ deadline ∨ s.drainDeadline ≤ k.time) → Close r deadline s' k')
      (fun error _ k' => error ≠ .panicked ∧ k'.By e) s k := by
  rw [meets_bind]
  refine (drainStep_runs h hk).mono ?_ fun _ _ _ h => h
  rintro _ s1 k1 ⟨⟨e1, htime, he1, hk1, hd⟩, hswift⟩
  rw [meets_bind, meets_get]
  split_ifs with hempty
  · exact hswift.by_
  have hne : s1.slots ≠ [] := by simpa using hempty
  have hstop1 : s1.stop.isSome = true := by rwa [hd.stop]
  have hidle1 : s1.stop = none → s1.drainDeadline = durationMax := by
    intro hnone
    rw [hnone] at hstop1
    cases hstop1
  rw [meets_bind]
  refine (waitRound_meets hidle1).mono ?_ fun _ _ _ h => h.elim
  intro _ s' k' hw
  have hidle : s'.stop = none → s'.drainDeadline = durationMax := by
    intro hnone
    have hsome := hw.stop hstop1
    rw [hnone] at hsome
    cases hsome
  have hwaits := hw.waits
  rw [hswift.waits] at hwaits
  refine ⟨fun hs => hne (hd.empty hs), hw.stop hstop1, hwaits ▸ Nat.lt_succ_self _, ?_⟩
  have hboundary : e1 ≤ s1.drainDeadline → Boundary r s' k' := fun hbefore =>
    ⟨hw.marked hd.marked, hidle, fun _ => .inl ⟨hw.by_deadline hk1 hbefore hstop1, .inl le_rfl⟩⟩
  by_cases hearly : e1 < s.drainDeadline
  · have hsame := hd.early hearly hne
    have hbefore : e1 ≤ s1.drainDeadline := by omega
    exact ⟨hboundary hbefore, fun _ _ _ => hw.early hk1 hbefore hstop1 (by omega)⟩
  · obtain ⟨hall, hbefore⟩ := hd.late (Nat.not_lt.mp hearly) hne
    exact ⟨hboundary hbefore, fun _ hdeadline _ => hw.late hk1 hall (he1.trans hdeadline)⟩

/-! ## the rounds before a stop -/

/-- no stop is declared -/
def Idle (aborted : List Handle) (s : LoopState) : Prop :=
  Marked s aborted ∧ s.stop = none ∧ s.drainDeadline = durationMax

theorem idle_planned {aborted : List Handle} : Planned (Idle aborted) := by
  constructor
  · rintro s s' hc hn hslots ⟨hm, hstop, hdeadline⟩
    exact ⟨marked_elsewhere s s' hc hn hslots hm, (congrArg Cells.stop hc).trans hstop,
      (congrArg Cells.drainDeadline hc).trans hdeadline⟩
  · exact fun s _ _ _ h => h
  · rintro s slot hnone ⟨hm, hstop, hdeadline⟩
    refine ⟨fun slot' hslot' hintent => ?_, hstop, hdeadline⟩
    obtain hold | hnew := mem_append.mp hslot'
    · exact hm slot' hold hintent
    · rw [mem_singleton.mp hnew, hnone] at hintent
      cases hintent

theorem Idle.settled {aborted : List Handle} (h : Idle aborted s) (hsub : aborted ⊆ k.aborted) :
    Settled s k := by
  refine ⟨h.1.mono hsub, fun _ => h.2.2, fun hstop => ?_⟩
  rw [h.2.1] at hstop
  cases hstop

theorem aborted_next : k.aborted ⊆ (k.next q a).aborted := by
  cases q <;> first | exact List.Subset.refl _ | exact subset_cons_self _ _

abbrev Settles (r : LoopRunner) (x : RunM α) (s : LoopState) (k : Watch) : Prop :=
  x.Meets (stopwatch r) (fun _ s' k' => Settled s' k') (fun _ _ _ => True) s k

theorem settles_of_idle {P : Query → Prop} (hx : ∀ aborted, x.Stays P (Idle aborted))
    (h : Idle k.aborted s) : Settles r x s k := by
  refine ((hx k.aborted).meets (J := fun k' => k.aborted ⊆ k'.aborted)
    (fun _ _ hk _ => ⟨trivial, fun _ _ => List.Subset.trans hk aborted_next⟩) h
    (List.Subset.refl _)).mono ?_ fun _ _ _ _ => trivial
  rintro _ s' k' ⟨hs', hk'⟩
  exact hs'.settled hk'

theorem settles_call {f : Reply q → RunM α} (h : Idle k.aborted s)
    (hf : ∀ reply k', Idle k'.aborted s → Settles r (f reply) s k') :
    Settles r (call q >>= f) s k :=
  meets_bind.mpr (meets_call.mpr ⟨trivial, fun a _ => hf a.reply _ ⟨h.1.mono aborted_next, h.2⟩⟩)

theorem meets_now {err : Fatal → LoopState → Watch → Prop} {f : Nat → RunM α}
    (hf : ∀ e k', k'.By e → k'.aborted = k.aborted → k'.due = k.due → k'.waits = k.waits →
      k.time ≤ k'.time → (∀ T, k.By T → e ≤ T) → e ≤ durationMax →
      (f e).Meets (stopwatch r) post err s k') :
    (call .now >>= f).Meets (stopwatch r) post err s k := by
  refine meets_bind.mpr (meets_call.mpr ⟨trivial, fun a ha => ?_⟩)
  obtain ⟨hread, hfits⟩ := smooth_now ha.2
  refine hf a.reply _ ⟨0, rfl, hread.ge⟩ rfl rfl rfl ha.1.1 (fun T hT => ?_) ?_
  · exact hread ▸ expects_by ha hT
  · exact (Nat.le_add_right _ _).trans hfits

theorem settles_now {f : Nat → RunM α} (h : Idle k.aborted s)
    (hf : ∀ e k', k'.By e → Idle k'.aborted s → Settles r (f e) s k') :
    Settles r (call .now >>= f) s k :=
  meets_now fun e k' hk' haborted _ _ _ _ _ => hf e k' hk' (haborted ▸ h)

theorem declareStop_settles {reason : StopReason} (h : Marked s k.aborted) (hk : k.By e) :
    Settles r (r.declareStop reason e) s k := by
  unfold declareStop addDuration
  unfold Settles
  rw [meets_bind]
  split_ifs
  · exact ⟨h, nofun, fun _ => hk.mono (Nat.le_add_right _ _)⟩
  · trivial

theorem shutdownFromPass_settles (h : Idle k.aborted s) : Settles r r.shutdownFromPass s k := by
  unfold shutdownFromPass
  unfold Settles
  rw [meets_bind, meets_get]
  refine settles_now h fun e k' hk' h' => ?_
  unfold Settles
  rw [meets_bind]
  exact (declareStop_settles h'.1 hk').mono
    (fun _ _ _ hs => ⟨hs.marked, hs.idle, hs.by_⟩) fun _ _ _ h => h

theorem settles_ret {x : RunM Unit} {a : α} (hx : Settles r x s k) : Settles r (do x; pure a) s k :=
  meets_bind.mpr hx

theorem afterSnapshot_settles {snapshot : BoardSnapshot} (h : Idle k.aborted s) :
    Settles r (r.afterSnapshot snapshot) s k := by
  unfold afterSnapshot
  refine settles_now h fun e k1 _ h1 => ?_
  split_ifs with hbudget
  · unfold Settles note
    rw [meets_bind, meets_update]
    refine settles_now ?_ fun e' k2 hk2 h2 => settles_ret (declareStop_settles h2.1 hk2)
    exact h1
  refine settles_call h1 fun _ k2 h2 => settles_call h2 fun _ k3 h3 => ?_
  unfold Settles
  rw [meets_bind, meets_get]
  refine settles_call h3 fun looked k4 h4 => ?_
  split_ifs with hchanged
  · unfold Settles note
    rw [meets_bind, meets_update]
    exact settles_ret (shutdownFromPass_settles h4)
  refine settles_now h4 fun e' k5 _ h5 => ?_
  refine settles_of_idle (P := Query.plans) (fun aborted => ?_) h5
  exact stays_nowSecs.bind fun now => (planAndSpawn_stays idle_planned).bind fun _ => stays_pure _

theorem pass_settles (h : Idle k.aborted s) : Settles r (r.pass e) s k := by
  unfold LoopRunner.pass
  unfold Settles
  rw [meets_bind, meets_get]
  split_ifs with hgated
  · exact h.settled (List.Subset.refl _)
  rw [meets_bind, meets_update]
  refine settles_now ?_ fun before k1 _ h1 => settles_call h1 fun polled k2 h2 => ?_
  · exact h
  cases polled with
  | snapshot => exact afterSnapshot_settles h2
  | pollFailed =>
    refine settles_of_idle (P := Query.waits) (fun aborted => ?_) h2
    refine Stays.bind (stays_update fun _ h => h) fun _ => (stays_call trivial).bind fun _ => ?_
    exact (paceNoSpawn_stays idle_planned.elsewhere).bind fun _ => stays_pure _
  | shutdown =>
    refine settles_call h2 fun seen k3 h3 => ?_
    unfold Settles
    rw [meets_bind, meets_update]
    exact settles_ret (shutdownFromPass_settles h3)
  | budgetExpired =>
    exact settles_now h2 fun e' k3 hk3 h3 => settles_ret (declareStop_settles h3.1 hk3)

theorem Settled.next (h : Settled s k) (hq : q.isInstant) (ha : (stopwatch r).expects k q a) :
    Settled s (k.next q a) :=
  ⟨h.marked.mono aborted_next, h.idle, fun hstop => (swift_next hq (h.by_ hstop) ha).1.by_⟩

theorem proceed_settles {now : Nat} (h : Idle k.aborted s) (hk : k.By e) (he : e ≤ durationMax) :
    Settles r (r.proceed e now) s k := by
  unfold proceed
  split_ifs with hbudget
  · exact declareStop_settles h.1 hk
  unfold Settles
  rw [meets_bind]
  have hspend : Runs r e (fun _ _ _ => True) (callE (call (.dailySpend now))) s k := by
    refine (atOnce_call (q := .dailySpend now) trivial hk).bind fun reply _ _ hk' => ?_
    cases reply with
    | ok => exact runs_pure hk' trivial
    | error => exact ⟨nofun, hk'⟩
  refine (hspend.stays (R := (· = s)) (P := Query.plans) (stays_callE (stays_call trivial)) rfl).mono ?_
    fun _ _ _ _ => trivial
  rintro daily s' k1 ⟨⟨-, hs'⟩, hswift⟩
  subst hs'
  have h1 : Idle k1.aborted s' := ⟨h.1.mono hswift.aborted, h.2⟩
  split_ifs with hcap
  · exact ⟨h1.1, nofun, fun _ => hswift.by_.mono he⟩
  rw [meets_bind, meets_get]
  split_ifs with hcycles
  · exact declareStop_settles h1.1 hswift.by_
  rw [meets_bind]
  refine (pass_settles h1).mono ?_ fun _ _ _ h => h
  intro consumed s2 k2 h2
  cases consumed with
  | false => exact h2
  | true =>
    simp only [if_true]
    rw [meets_bind]
    refine meets_call.mpr ⟨trivial, fun a ha => ?_⟩
    have h3 : Settled s2 (k2.next .borrowAndUpdate a) := h2.next trivial ha
    exact ⟨h3.marked, h3.idle, h3.by_⟩

/-! ## every round -/

theorem round_meets (h : Boundary r s k) : r.round.Meets (stopwatch r)
    (fun done s' k' =>
      if done then ∀ deadline, Close r deadline s k → k'.By (deadline + 2 * tickInterval r.config)
      else Boundary r s' k' ∧ (s.stop.isSome = true → s'.stop.isSome = true ∧ k.waits < k'.waits ∧
        ∀ deadline, Close r deadline s k → Close r deadline s' k'))
    (fun error _ k' => s.stop.isSome = true → error ≠ .panicked ∧
      ∀ deadline, Close r deadline s k → k'.By (deadline + 2 * tickInterval r.config)) s k := by
  unfold LoopRunner.round
  refine meets_now fun e k1 hk1 haborted hdue hwaits htime hbound hmax => ?_
  -- all that comes before the wait happens at `e`
  have hlast : ∀ {k' : Watch}, k'.By e → ∀ deadline, Close r deadline s k →
      k'.By (deadline + 2 * tickInterval r.config) := by
    rintro k' hk' deadline (⟨hby, -⟩ | ⟨hby, -⟩)
    · exact hk'.mono ((hbound _ hby).trans (by omega))
    · exact hk'.mono (hbound _ hby)
  have herr : ∀ (error : Fatal) (s' : LoopState) (k' : Watch), error ≠ .panicked ∧ k'.By e →
      s.stop.isSome = true → error ≠ .panicked ∧ ∀ deadline, Close r deadline s k →
        k'.By (deadline + 2 * tickInterval r.config) := fun _ _ _ ⟨hne, hk'⟩ _ => ⟨hne, hlast hk'⟩
  rw [meets_bind]
  have hsecs : Runs r e (fun _ s' _ => True ∧ s' = s) (r.nowSecs e) s k1 :=
    (atOnce_nowSecs hk1).stays (P := Query.supervises) stays_nowSecs rfl
  refine hsecs.mono ?_ herr
  rintro now s1 k2 ⟨⟨-, rfl⟩, hswift2⟩
  rw [meets_bind]
  have hmarked : Marked s1 k2.aborted := h.marked.mono (haborted ▸ hswift2.aborted)
  refine (supervise_runs hmarked hswift2.by_).mono ?_ herr
  rintro _ s2 k3 ⟨⟨hmarked2, hcells, hreaped⟩, hswift3⟩
  have hstop2 : s2.stop = s1.stop := congrArg Cells.stop hcells
  have hdeadline2 : s2.drainDeadline = s1.drainDeadline := congrArg Cells.drainDeadline hcells
  rw [meets_bind, meets_get]
  split_ifs with hstop
  · refine (drainRound_meets hmarked2 hstop hswift3.by_).mono ?_ herr
    intro done _ _ hdone
    cases done with
    | true => exact hlast hdone
    | false =>
      obtain ⟨hne, hstop', hmore, hboundary, hclose⟩ := hdone
      rw [hswift3.waits, hswift2.waits, hwaits] at hmore
      refine ⟨hboundary, fun _ => ⟨hstop', hmore, fun deadline hd => ?_⟩⟩
      obtain ⟨hby, hd⟩ | ⟨-, hall⟩ := hd
      · refine hclose deadline (hbound _ hby) ?_
        rw [hdeadline2]
        exact hd.imp id fun hd => hd.trans (htime.trans (hswift2.time.trans hswift3.time))
      · refine absurd (hreaped ?_) hne
        rw [hswift2.due, hdue]
        exact hall
  · have hnone : s2.stop = none := by simpa using hstop
    have hnone1 : s1.stop = none := hstop2 ▸ hnone
    have hidle : Idle k3.aborted s2 := ⟨hmarked2, hnone, hdeadline2.trans (h.idle hnone1)⟩
    have hfalse : ∀ {p : Prop}, s1.stop.isSome = true → p := by
      intro p hsome
      rw [hnone1] at hsome
      cases hsome
    rw [meets_bind]
    refine (proceed_settles hidle hswift3.by_ hmax).mono ?_ fun _ _ _ _ => hfalse
    intro _ _ _ h4
    rw [meets_bind]
    refine (waitRound_meets h4.idle).mono ?_ fun _ _ _ h => h.elim
    exact fun _ s' k' hw => ⟨hw.boundary h4, hfalse⟩

/-! ## the end of the loop -/

theorem sweep_atOnce (hk : k.By T) : AtOnce r T r.sweep s k := by
  have hone : ∀ (slot : Slot) (s : LoopState) (k : Watch), k.By T → AtOnce r T (r.sweepOne slot) s k := by
    intro slot s k hk
    refine (atOnce_call (q := .join slot.process) trivial hk).bind fun _ _ _ hk1 => ?_
    refine (atOnce_call (q := .now) trivial hk1).bind fun e _ _ hk2 => ?_
    exact (atOnce_call (by trivial) hk2).bind fun _ _ _ hk3 => runs_update hk3 trivial
  unfold sweep
  refine AtOnce.bind ((killWhere_runs hk).mono (fun _ _ _ h => ⟨trivial, h.2⟩) fun _ _ _ h => h) ?_
  intro _ _ _ hk1
  exact runs_get_bind.mpr (runs_update_bind.mpr (atOnce_forEach hone _ hk1))

theorem conclude_meets {result : Except Fatal Unit} (hresult : result ≠ .error .panicked)
    (hk : k.By T) : (r.conclude result).Meets (stopwatch r) (fun _ _ k' => k'.time ≤ T)
      (fun error _ k' => error ≠ .panicked ∧ k'.time ≤ T) s k := by
  unfold conclude
  cases result with
  | ok =>
    show summary.Meets _ _ _ _ _
    unfold summary
    exact meets_now fun e k' hk' _ _ _ _ hbound _ => (By.time_le hk').trans (hbound T hk)
  | error error =>
    cases error with
    | panicked => exact absurd rfl hresult
    | error error =>
      have hraise : ∀ (s : LoopState) {k : Watch}, k.By T →
          (raise error : RunM LoopRunner.LoopSummary).Meets (stopwatch r) (fun _ _ k' => k'.time ≤ T)
            (fun error _ k' => error ≠ .panicked ∧ k'.time ≤ T) s k :=
        fun _ _ hk => ⟨nofun, By.time_le hk⟩
      dsimp only
      rw [meets_bind, meets_get]
      split_ifs
      · rw [meets_bind]
        refine (sweep_atOnce hk).mono (fun _ s' _ h => hraise s' h.2.by_) ?_
        exact fun _ _ _ h => ⟨h.1, By.time_le h.2⟩
      · exact hraise s hk

def LoopRunner.resume (r : LoopRunner) (n : Nat) (s : LoopState) :
    Calls Answer (LoopState ⊕ (Except Fatal LoopSummary × LoopState)) :=
  Calls.rounds r.roundStep n s >>= fun
    | .inl s => .ret (.inl s)
    | .inr (result, s) => r.conclude result s >>= fun ended => .ret (.inr ended)

theorem LoopRunner.run_add (r : LoopRunner) (n m : Nat) : r.run (n + m) = r.run n >>= fun
    | .inl s => r.resume m s
    | .inr ended => .ret (.inr ended) := by
  unfold LoopRunner.run
  split
  · rfl
  · rw [rounds_add, bind_bind, bind_bind]
    congr 1
    funext res
    cases res with
    | inl => rfl
    | inr =>
      rw [ret_bind, bind_bind]
      rfl

theorem resume_keeps {deadline : Nat} (n : Nat) (h : Boundary r s k) (hstop : s.stop.isSome = true)
    (hclose : Close r deadline s k) : (r.resume n s).Keeps (stopwatch r)
      (fun res k' => k'.time ≤ deadline + 2 * tickInterval r.config ∧
        (res.isLeft = true → n ≤ k'.waits) ∧
        ∀ result s', res = .inr (result, s') → result ≠ .error .panicked) k := by
  have hrounds : (rounds r.roundStep n s).Keeps (stopwatch r)
      (fun res k' => res.elim
        (fun s' => (Boundary r s' k' ∧ s'.stop.isSome = true ∧ Close r deadline s' k') ∧
          k.waits + n ≤ k'.waits)
        (fun ended => ended.1 ≠ .error .panicked ∧
          k'.By (deadline + 2 * tickInterval r.config))) k := by
    refine keeps_rounds_grow (I := fun s k => Boundary r s k ∧ s.stop.isSome = true ∧
      Close r deadline s k) ?_ n ⟨h, hstop, hclose⟩
    rintro s k ⟨hb, hstop, hclose⟩
    unfold roundStep
    rw [keeps_bind]
    refine Calls.Keeps.mono (round_meets hb) ?_
    rintro ⟨result, s'⟩ k' hres
    cases result with
    | error =>
      obtain ⟨hne, hby⟩ := hres hstop
      exact ⟨fun heq => hne (by cases heq; rfl), hby deadline hclose⟩
    | ok done =>
      cases done with
      | true => exact ⟨nofun, hres deadline hclose⟩
      | false =>
        obtain ⟨hb', hres⟩ := hres
        obtain ⟨hstop', hmore, hclose'⟩ := hres hstop
        exact ⟨⟨hb', hstop', hclose' deadline hclose⟩, hmore⟩
  unfold resume
  rw [keeps_bind]
  refine hrounds.mono ?_
  rintro (s' | ⟨result, s'⟩) k' hres
  · obtain ⟨⟨-, -, hclose'⟩, hmore⟩ := hres
    refine ⟨?_, fun _ => (Nat.le_add_left _ _).trans hmore, fun _ _ heq => Sum.inl_ne_inr heq |>.elim⟩
    obtain ⟨hby, -⟩ | ⟨hby, -⟩ := hclose'
    · exact (By.time_le hby).trans (by omega)
    · exact By.time_le hby
  · rw [keeps_bind]
    refine Calls.Keeps.mono (conclude_meets hres.1 hres.2) ?_
    rintro ⟨ended, s''⟩ k'' hended
    cases ended with
    | ok => exact ⟨hended, nofun, by rintro _ _ ⟨⟩; nofun⟩
    | error => exact ⟨hended.2, nofun, by rintro _ _ ⟨⟩ ⟨⟩; exact hended.1 rfl⟩

theorem run_boundary (r : LoopRunner) (n : Nat) : (r.run n).Keeps (stopwatch r)
    (fun res k => ∀ s, res = .inl s → Boundary r s k) {} := by
  have hinit : Boundary r r.initial {} := ⟨nofun, fun _ => rfl, nofun⟩
  refine (r.run_keeps (I := Boundary r) (E := fun _ _ _ => True) (F := fun _ _ _ => True)
    (fun _ => trivial) ?_ ?_ n hinit).mono ?_
  · intro s k h
    refine (round_meets h).mono ?_ fun _ _ _ _ => trivial
    intro done _ _ hdone
    cases done with
    | true => trivial
    | false => exact hdone.1
  · intro _ _ k _
    refine (keeps_any (fun _ _ => trivial) _ k).mono ?_
    rintro ⟨ended, s'⟩ k' _
    cases ended <;> trivial
  · rintro (s | ended) k h s' heq
    · cases heq
      exact h
    · cases heq

/-- waits take time: after enough of them the clock is past `T`, for every `T` from which a drain deadline
can still be a `Duration` -/
def TimePasses (r : LoopRunner) {σ : Type} (h : σ → (q : Query) → Answer q × σ) (t : σ) : Prop :=
  ∀ T, T + r.config.shutdownBudget < durationMax → ∃ waits, ∀ n,
    waits < ((stopwatch r).after {} ((r.run n).trace h t)).waits →
      T < ((stopwatch r).after {} ((r.run n).trace h t)).time

/-- from a declared stop on, the loop ends within two ticks of the drain deadline -/
theorem drain_ends {σ : Type} {h : σ → (q : Query) → Answer q × σ} {t : σ} {n : Nat}
    (hexpected : ∀ m, (stopwatch r).Expected {} ((r.run m).trace h t)) (hpasses : TimePasses r h t)
    (hrun : ((r.run n).run h t).1 = .inl s) (hstop : s.stop.isSome = true)
    (hroom : s.drainDeadline + 2 * tickInterval r.config + r.config.shutdownBudget < durationMax) :
    ∃ m result s', ((r.run m).run h t).1 = .inr (result, s') ∧ result ≠ .error .panicked ∧
      ((stopwatch r).after {} ((r.run m).trace h t)).time ≤
        s.drainDeadline + 2 * tickInterval r.config := by
  have hboundary := (run_boundary r n).run_expected (hexpected n) s hrun
  obtain ⟨waits, hwaits⟩ := hpasses _ hroom
  have hlater := resume_keeps (waits + 1) hboundary hstop (hboundary.close hstop)
  have hexp := hexpected (n + (waits + 1))
  have hpast := hwaits (n + (waits + 1))
  rw [r.run_add, trace_bind, hrun, Calls.Monitor.expected_append] at hexp
  obtain ⟨htime, hmore, hpanic⟩ := hlater.run_expected hexp.2
  refine ⟨n + (waits + 1), ?_⟩
  rw [r.run_add, trace_bind, hrun, Calls.Monitor.after, foldl_append] at hpast
  rw [r.run_add, run_bind, trace_bind, hrun, Calls.Monitor.after, foldl_append]
  cases hres : ((r.resume (waits + 1) s).run h ((r.run n).run h t).2).1 with
  | inl =>
    rw [hres] at hmore
    exact absurd (hpast (hmore rfl)) (Nat.not_lt.mpr htime)
  | inr ended => exact ⟨ended.1, ended.2, rfl, hpanic _ _ hres, htime⟩

end

/-! ## the history of the signals -/

/-- What is promised of the signals in a history: none moves the deadline later; a second one ends the
grace window, and the next drain step spares no worker.  `again` when a signal was observed before,
`urgent` when the last note is of such a second signal. -/
def Prompt (again urgent : Bool) : List Note → Prop
  | [] => True
  | .signal _ elapsed before after :: l =>
    (after ≤ before ∧ (again = true → after ≤ elapsed)) ∧ Prompt true again l
  | .drain _ _ spared :: l => (urgent = true → spared = []) ∧ Prompt again false l
  | .pass .. :: l | .stopped _ :: l => Prompt again urgent l

instance Prompt.decidable (again urgent : Bool) : (l : List Note) → Decidable (Prompt again urgent l)
  | [] => inferInstanceAs (Decidable True)
  | .signal _ _ _ _ :: l =>
    have := decidable true again l
    inferInstanceAs (Decidable (_ ∧ _))
  | .drain _ _ _ :: l =>
    have := decidable again false l
    inferInstanceAs (Decidable (_ ∧ _))
  | .pass _ _ _ :: l => decidable again urgent l
  | .stopped _ :: l => decidable again urgent l

/-- when the promise is kept: a signal of a shutdown that is already declared comes before the deadline,
and a second signal finds the shutdown declared, or the deadline passed -/
def Orderly (again : Bool) : List Note → Prop
  | [] => True
  | .signal stop elapsed before _ :: l =>
    ((stop = some .shutdown → elapsed ≤ before) ∧
      (again = true → stop = some .shutdown ∨ before ≤ elapsed)) ∧ Orderly true l
  | .drain .. :: l | .pass .. :: l | .stopped _ :: l => Orderly again l

instance Orderly.decidable (again : Bool) : (l : List Note) → Decidable (Orderly again l)
  | [] => inferInstanceAs (Decidable True)
  | .signal _ _ _ _ :: l =>
    have := decidable true l
    inferInstanceAs (Decidable (_ ∧ _))
  | .drain _ _ _ :: l => decidable again l
  | .pass _ _ _ :: l => decidable again l
  | .stopped _ :: l => decidable again l

section
variable {budget : Nat} {stop : Option StopReason} {elapsed before after : Nat}

theorem signal_not_later_iff (h : Note.Lawful budget (.signal stop elapsed before after)) :
    after ≤ before ↔ (stop = some .shutdown → elapsed ≤ before) := by
  cases stop with
  | none =>
    obtain ⟨hbefore, -, hmax⟩ := h
    exact iff_of_true (hbefore ▸ hmax) nofun
  | some reason =>
    cases reason with
    | shutdown =>
      obtain rfl : after = elapsed := h
      exact ⟨fun hle _ => hle, fun hle => hle rfl⟩
    | _ =>
      obtain rfl : after = min before (elapsed + budget) := h
      exact iff_of_true (Nat.min_le_left _ _) nofun

theorem signal_urgent_iff (hbudget : 0 < budget)
    (h : Note.Lawful budget (.signal stop elapsed before after)) :
    after ≤ elapsed ↔ stop = some .shutdown ∨ before ≤ elapsed := by
  cases stop with
  | none =>
    obtain ⟨hbefore, hafter, hmax⟩ := h
    refine iff_of_false (by omega) ?_
    rintro (hstop | hle)
    · cases hstop
    · omega
  | some reason =>
    cases reason with
    | shutdown =>
      obtain rfl : after = elapsed := h
      exact iff_of_true le_rfl (.inl rfl)
    | _ =>
      have hafter : after = min before (elapsed + budget) := h
      constructor
      · exact fun hle => .inr (by omega)
      · rintro (hstop | hle)
        · cases hstop
        · omega

end

/-- the first note, if there is one, follows a signal that ended the grace window -/
def FollowsUrgent (notes : List Note) : Prop :=
  ∀ n ∈ notes.head?, ∃ stop elapsed before after,
    (Note.signal stop elapsed before after).Follows n ∧ after ≤ elapsed

theorem prompt_iff_orderly {budget : Nat} (hbudget : 0 < budget) (notes : List Note)
    (h : Sound budget notes) (again urgent : Bool) (hurgent : urgent = true → FollowsUrgent notes) :
    Prompt again urgent notes ↔ Orderly again notes := by
  induction notes generalizing again urgent with
  | nil => exact Iff.rfl
  | cons n l ih =>
    have hl : Sound budget l := ⟨fun m hm => h.lawful m (mem_cons_of_mem n hm), h.chain.tail⟩
    have hn := h.lawful n mem_cons_self
    cases n with
    | signal stop elapsed before after =>
      have hsignal := and_congr (signal_not_later_iff hn)
        (imp_congr_right fun _ : again = true => signal_urgent_iff hbudget hn)
      refine (and_congr_right fun hkept => ?_).trans (and_congr_left fun _ => hsignal)
      refine ih hl true again fun hagain m hm => ⟨stop, elapsed, before, after, ?_, hkept.2 hagain⟩
      exact h.chain.rel_head? hm
    | drain _ _ spared =>
      have hspared : urgent = true → spared = [] := by
        intro hu
        obtain ⟨_, _, _, _, ⟨hdeadline, hle⟩, hafter⟩ := hurgent hu _ rfl
        exact hn (by omega)
      exact (and_iff_right hspared).trans (ih hl again false nofun)
    | pass =>
      refine ih hl again urgent fun hu => ?_
      obtain ⟨_, _, _, _, hfalse, -⟩ := hurgent hu _ rfl
      exact hfalse.elim
    | stopped =>
      refine ih hl again urgent fun hu => ?_
      obtain ⟨_, _, _, _, hfalse, -⟩ := hurgent hu _ rfl
      exact hfalse.elim

def history (res : LoopState ⊕ (Except Fatal LoopRunner.LoopSummary × LoopState)) : List Note :=
  res.elim (·.notes) (·.2.notes)

theorem shutdownBudget_pos {config : LoopConfig} (h : config.validate = .ok ()) :
    0 < config.shutdownBudget := by
  unfold LoopConfig.validate at h
  split_ifs at h with h1 h2 h3
  exact Nat.pos_of_ne_zero h3

theorem clock_expected {c : Nat} {l : List (Sigma Answer)} (h : (stopwatch r).Expected k l)
    (hc : c ≤ k.time) : clock.Expected c l := by
  induction l generalizing k c with
  | nil => trivial
  | cons e l ih =>
    obtain ⟨q, a⟩ := e
    obtain ⟨⟨⟨htime, -⟩, hsmooth⟩, hl⟩ := h
    have hnext : k.time ≤ ((stopwatch r).next k q a).time := htime
    cases q with
    | now =>
      obtain ⟨hread, -⟩ := smooth_now hsmooth
      have hle : c ≤ a.reply := (hc.trans htime).trans hread.ge
      exact ⟨hle, ih hl hread.le⟩
    | _ => exact ⟨trivial, ih hl (hc.trans hnext)⟩

/-! ## a bench -/

/-- an environment that keeps the time: its workers run on until they are aborted, and are finished after
the next wait; `waits` says how the first waits end and how long they take -/
structure Bench where
  store : LoopRunStore := .empty
  time : Nat := 0
  waits : List (TickEnd × Nat)
  aborted : List Handle := []
  due : List Handle := []

namespace Bench

def moment (b : Bench) : Moment := ⟨b.time, 0⟩

def waited (b : Bench) (duration : Nat) : Bench :=
  { b with time := b.time + duration, due := b.aborted }

def answer (b : Bench) : (q : Query) → Answer q × Bench
  | .store op => (⟨(b.store.exec op).1, b.moment⟩, { b with store := (b.store.exec op).2 })
  | .now => (⟨b.time, b.moment⟩, b)
  | .abort process => (⟨(), b.moment⟩, { b with aborted := process :: b.aborted })
  | .isFinished process => (⟨b.due.contains process, b.moment⟩, b)
  | .sleep duration => (⟨(), b.moment⟩, b.waited duration)
  | .tick duration _ => match b.waits with
    | [] => (⟨.elapsed, b.moment⟩, b.waited duration)
    | (ended, took) :: waits => (⟨ended, b.moment⟩, { b.waited took with waits })
  | q => (⟨calm q, b.moment⟩, b)

end Bench

theorem run_stays_ended {σ : Type} {h : σ → (q : Query) → Answer q × σ} {t : σ} {n : Nat}
    (hended : ((r.run n).run h t).1.isRight = true) (m : Nat) :
    (r.run (n + m)).trace h t = (r.run n).trace h t := by
  rw [r.run_add, trace_bind]
  cases hres : ((r.run n).run h t).1 with
  | inl => rw [hres] at hended; cases hended
  | inr => exact append_nil _

/-- Over every run, the signals keep their promise exactly when they come in order; and from a declared
stop on the loop ends within two ticks of the drain deadline, when an aborted worker is finished after
the next wait. -/
theorem drain_is_prompt (r : LoopRunner) {σ : Type} (h : σ → (q : Query) → Answer q × σ) (t : σ) :
    (∀ n, clock.Expected 0 ((r.run n).trace h t) →
      (Prompt false false (history ((r.run n).run h t).1) ↔
        Orderly false (history ((r.run n).run h t).1))) ∧
    ((∀ n, (stopwatch r).Expected {} ((r.run n).trace h t)) → TimePasses r h t →
      ∀ n s, ((r.run n).run h t).1 = .inl s → s.stop.isSome = true →
        s.drainDeadline + 2 * tickInterval r.config + r.config.shutdownBudget < durationMax →
        ∃ m result s', ((r.run m).run h t).1 = .inr (result, s') ∧ result ≠ .error .panicked ∧
          ((stopwatch r).after {} ((r.run m).trace h t)).time ≤
            s.drainDeadline + 2 * tickInterval r.config) := by
  constructor
  · intro n hclock
    cases hvalid : r.config.validate with
    | error =>
      unfold LoopRunner.run
      rw [hvalid]
      exact Iff.rfl
    | ok _ =>
      have hsound := (run_sound r n).run_expected hclock
      exact prompt_iff_orderly (shutdownBudget_pos hvalid) _ hsound false false nofun
  · exact fun hexpected hpasses n s hrun hstop hroom => drain_ends hexpected hpasses hrun hstop hroom

def twoSignals : Bench :=
  { waits := [(.changed, 500000000), (.changed, 500000000)] }

-- the histories below are closed terms: they are to be evaluated where that is asked for, and only there
attribute [irreducible] Prompt Orderly

theorem twoSignals_ended : ((soloRunner.run 4).run Bench.answer twoSignals).1.isRight = true := by
  decide +kernel

theorem twoSignals_rounds : ∀ n < 5,
    (stopwatch soloRunner).Expected {} ((soloRunner.run n).trace Bench.answer twoSignals) ∧
      ((stopwatch soloRunner).after {} ((soloRunner.run n).trace Bench.answer twoSignals)).waits ≤ 4 := by
  decide +kernel

theorem twoSignals_smooth (n : Nat) :
    (stopwatch soloRunner).Expected {} ((soloRunner.run n).trace Bench.answer twoSignals) ∧
      ((stopwatch soloRunner).after {} ((soloRunner.run n).trace Bench.answer twoSignals)).waits ≤ 4 := by
  obtain hn | hn := Nat.lt_or_ge n 5
  · exact twoSignals_rounds n hn
  · obtain ⟨m, rfl⟩ : ∃ m, n = 4 + m := ⟨n - 4, by omega⟩
    rewrite [run_stays_ended twoSignals_ended m]
    exact twoSignals_rounds 4 (by omega)

theorem twoSignals_passes : TimePasses soloRunner Bench.answer twoSignals :=
  fun _ _ => ⟨4, fun n hmore => absurd (twoSignals_smooth n).2 (Nat.not_le.mpr hmore)⟩

theorem twoSignals_second : ((soloRunner.run 2).run Bench.answer twoSignals).1.elim
    (fun s => s.stop.isSome && s.drainDeadline = 1000000000) (fun _ => false) = true := by
  decide +kernel

theorem twoSignals_orderly :
    Orderly false (history ((soloRunner.run 4).run Bench.answer twoSignals).1) := by
  decide +kernel

/-- The first signal begins the drain, the second one ends its grace window a second after the start: the
loop ends within two ticks. -/
theorem drain_is_prompt_two_signals :
    Prompt false false (history ((soloRunner.run 4).run Bench.answer twoSignals).1) ∧
      ∃ s, ((soloRunner.run 2).run Bench.answer twoSignals).1 = .inl s ∧
        s.drainDeadline = 1000000000 ∧
        ∃ m result s', ((soloRunner.run m).run Bench.answer twoSignals).1 = .inr (result, s') ∧
          result ≠ .error .panicked ∧
          ((stopwatch soloRunner).after {} ((soloRunner.run m).trace Bench.answer twoSignals)).time ≤
            s.drainDeadline + 2 * tickInterval soloRunner.config := by
  have hdrain := drain_is_prompt soloRunner Bench.answer twoSignals
  have hclock := clock_expected (twoSignals_smooth 4).1 (Nat.zero_le _)
  refine ⟨(hdrain.1 4 hclock).mpr twoSignals_orderly, ?_⟩
  have hsecond := twoSignals_second
  cases hs : ((soloRunner.run 2).run Bench.answer twoSignals).1 with
  | inr =>
    rewrite [hs] at hsecond
    cases hsecond
  | inl s =>
    rewrite [hs] at hsecond
    obtain ⟨hstop, hdeadline⟩ : s.stop.isSome = true ∧ s.drainDeadline = 1000000000 := by
      simpa using hsecond
    refine ⟨s, rfl, hdeadline,
      hdrain.2 (fun n => (twoSignals_smooth n).1) twoSignals_passes 2 s hs hstop ?_⟩
    rewrite [hdeadline]
    decide +kernel

def hastyRunner : LoopRunner :=
  { soloRunner with
    config := { soloConfig with
      budgets := { soloConfig.budgets with runBudget := 1000000000 }
      shutdownBudget := 500000000 } }

def signalsAfterBudget : Bench :=
  { waits := [(.elapsed, 1000000000), (.changed, 200000000), (.changed, 100000000)] }

def lateSignal : Bench :=
  { waits := [(.changed, 100000000), (.changed, 800000000)] }

/-- Two signals while the loop drains for its run budget: the second one, at 1.3 s, leaves the deadline at
1.5 s, and the drain step that follows spares the worker.  And a second signal after the deadline of the
first one, 0.6 s, moves it to 0.9 s. -/
theorem second_signal_leaves_grace :
    (stopwatch hastyRunner).Expected {} ((hastyRunner.run 4).trace Bench.answer signalsAfterBudget) ∧
      (history ((hastyRunner.run 4).run Bench.answer signalsAfterBudget).1).filter (!·.isPass) =
        [.signal (some .runBudgetExhausted) 1200000000 1500000000 1500000000,
          .drain 1200000000 1500000000 [⟨1, "board-o_r-1", 0, 0, 0, none⟩],
          .signal (some .runBudgetExhausted) 1300000000 1500000000 1500000000,
          .drain 1300000000 1500000000 [⟨1, "board-o_r-1", 0, 0, 0, none⟩]] ∧
      ¬ Prompt false false (history ((hastyRunner.run 4).run Bench.answer signalsAfterBudget).1) ∧
      (stopwatch hastyRunner).Expected {} ((hastyRunner.run 2).trace Bench.answer lateSignal) ∧
      Note.signal (some .shutdown) 900000000 600000000 900000000 ∈
        history ((hastyRunner.run 2).run Bench.answer lateSignal).1 := by
  decide +kernel

end Campaign

import Orchestraitor.Campaign.LoopFrames

/-!
# Signals and the drain deadline

The history of a run has a note of every signal that was observed and of every drain step.  Here is
what each of these notes says (`Note.Lawful`) and how two notes in a row hang together
(`Note.Follows`): from a signal on nothing moves the deadline until the next signal or drain step.
-/

namespace Campaign
open Base CallState
open LoopRunner hiding pass round run

/-- follows the clock, which does not go back -/
def clock : Calls.Monitor Answer Nat :=
  { permits := fun _ _ => True
    expects := fun k q a => match q, a with
      | .now, a => k ≤ a.reply
      | _, _ => True
    next := fun k q a => match q, a with
      | .now, a => a.reply
      | _, _ => k }

def Note.Lawful (budget : Nat) : Note → Prop
  | .signal (some .shutdown) elapsed _ after => after = elapsed
  | .signal (some _) elapsed before after => after = min before (elapsed + budget)
  | .signal none elapsed before after =>
    before = durationMax ∧ after = elapsed + budget ∧ after ≤ durationMax
  | .drain elapsed deadline spared => deadline ≤ elapsed → spared = []
  | .pass .. | .stopped _ => True

/-- how a note follows another one -/
def Note.Follows : Note → Note → Prop
  | .signal _ elapsed _ after, .signal _ elapsed' before' _ => before' = after ∧ elapsed ≤ elapsed'
  | .signal _ elapsed _ after, .drain elapsed' deadline _ => deadline = after ∧ elapsed ≤ elapsed'
  | .signal .., .pass .. | .signal .., .stopped _ => False
  | .pass .., _ | .stopped _, _ | .drain .., _ => True

/-- every note of a history is lawful, and follows the one before it -/
structure Sound (budget : Nat) (notes : List Note) : Prop where
  lawful : ∀ n ∈ notes, n.Lawful budget
  chain : notes.IsChain Note.Follows

/-- the history is sound, and the cells are as it says; the clock has read `time` -/
structure Told (budget : Nat) (s : LoopState) (time : Nat) : Prop where
  sound : Sound budget s.notes
  idle : s.stop = none → s.drainDeadline = durationMax
  last : ∀ stop elapsed before after, s.notes.getLast? = some (.signal stop elapsed before after) →
    s.stop.isSome = true ∧ s.drainDeadline = after ∧ elapsed ≤ time

theorem Sound.push {budget : Nat} {notes : List Note} {n : Note} (h : Sound budget notes)
    (hn : n.Lawful budget) (hfollows : ∀ m, notes.getLast? = some m → m.Follows n) :
    Sound budget (notes ++ [n]) := by
  constructor
  · intro m hm
    obtain hm | hm := List.mem_append.mp hm
    · exact h.lawful m hm
    · rwa [List.mem_singleton.mp hm]
  · refine List.isChain_append.mpr ⟨h.chain, .singleton n, ?_⟩
    intro m hm n' hn'
    obtain rfl : n = n' := by simpa using hn'
    exact hfollows m hm

namespace Told
variable {budget time time' : Nat} {s s' : LoopState}

theorem later (h : Told budget s time) (ht : time ≤ time') : Told budget s time' :=
  { h with
    last := fun stop elapsed before after hlast =>
      have ⟨hstop, hdeadline, hle⟩ := h.last stop elapsed before after hlast
      ⟨hstop, hdeadline, hle.trans ht⟩ }

theorem of_cells (h : Told budget s time) (hc : s'.cells = s.cells) (hn : s'.notes = s.notes) :
    Told budget s' time := by
  have hstop : s'.stop = s.stop := congrArg Cells.stop hc
  have hdeadline : s'.drainDeadline = s.drainDeadline := congrArg Cells.drainDeadline hc
  refine ⟨hn ▸ h.sound, ?_, ?_⟩
  · rw [hstop, hdeadline]
    exact h.idle
  · rw [hn, hstop, hdeadline]
    exact h.last

theorem follows_of_idle (h : Told budget s time) (hs : s.stop = none) {n : Note} (m : Note)
    (hm : s.notes.getLast? = some m) : m.Follows n := by
  cases m with
  | signal stop elapsed before after =>
    have hstop := (h.last stop elapsed before after hm).1
    rw [hs] at hstop
    cases hstop
  | pass | stopped | drain => trivial

theorem push (h : Told budget s time) {n : Note} (hn : n.Lawful budget)
    (hfollows : ∀ m, s.notes.getLast? = some m → m.Follows n)
    (hother : ∀ stop elapsed before after, n ≠ .signal stop elapsed before after) :
    Told budget { s with notes := s.notes ++ [n] } time := by
  refine ⟨h.sound.push hn hfollows, h.idle, ?_⟩
  intro stop elapsed before after hlast
  have hn' : n = .signal stop elapsed before after := by simpa using hlast
  exact absurd hn' (hother stop elapsed before after)

end Told

section
variable {r : LoopRunner} {α : Type} {x : RunM α} {s : LoopState} {k : Nat} {P : Query → Prop}

abbrev Tells (r : LoopRunner) (x : RunM α) (s : LoopState) (k : Nat) : Prop :=
  x.Meets clock (fun _ s' k' => Told r.config.shutdownBudget s' k')
    (fun _ s' _ => Sound r.config.shutdownBudget s'.notes) s k

theorem clock_meets {R : LoopState → Prop} (hx : x.Stays P R) (hs : R s) :
    x.Meets clock (fun _ s' k' => R s' ∧ k ≤ k') (fun _ s' k' => R s' ∧ k ≤ k') s k := by
  refine hx.meets (fun k' q hk _ => ⟨trivial, fun a ha => ?_⟩) hs le_rfl
  cases q with
  | now =>
    have hle : k' ≤ a.reply := ha
    exact hk.trans hle
  | _ => exact hk

theorem tells_bind {β : Type} {f : β → RunM α} {x : RunM β} (hx : Tells r x s k)
    (hf : ∀ b s' k', Told r.config.shutdownBudget s' k' → Tells r (f b) s' k') :
    Tells r (x >>= f) s k := meets_bind.mpr (hx.mono hf fun _ _ _ h => h)

theorem tells_now {f : Nat → RunM α}
    (hf : ∀ e, k ≤ e → Tells r (f e) s e) : Tells r (call .now >>= f) s k :=
  meets_bind.mpr (meets_call.mpr ⟨trivial, fun a ha => hf a.reply ha⟩)

theorem declareStop_tells {reason : StopReason} {e : Nat} (h : Told r.config.shutdownBudget s k)
    (hs : s.stop = none) : Tells r (r.declareStop reason e) s k := by
  unfold declareStop addDuration
  split_ifs with hfits
  · refine ⟨h.sound, nofun, ?_⟩
    intro stop elapsed before after hlast
    have hstop := (h.last stop elapsed before after hlast).1
    rw [hs] at hstop
    cases hstop
  · exact h.sound

theorem shutdownFromPass_tells (h : Told r.config.shutdownBudget s k) (hs : s.stop = none) :
    Tells r r.shutdownFromPass s k := by
  unfold shutdownFromPass declareStop addDuration
  unfold Tells
  rw [meets_bind, meets_get, meets_bind]
  refine meets_call.mpr ⟨trivial, fun a ha => ?_⟩
  split_ifs with hfits
  · have hlawful : Note.Lawful r.config.shutdownBudget
        (.signal s.stop a.reply s.drainDeadline (a.reply + r.config.shutdownBudget)) := by
      rw [hs]
      exact ⟨h.idle hs, rfl, hfits⟩
    refine ⟨h.sound.push hlawful (h.follows_of_idle hs), nofun, ?_⟩
    intro stop elapsed before after hlast
    obtain ⟨-, rfl, -, rfl⟩ : s.stop = stop ∧ a.reply = elapsed ∧ s.drainDeadline = before ∧
        a.reply + r.config.shutdownBudget = after := by simpa [note] using hlast
    exact ⟨rfl, rfl, le_rfl⟩
  · exact h.sound

/-- what a signal observed at `e` makes of the state -/
structure Signalled (r : LoopRunner) (e : Nat) (s s' : LoopState) : Prop where
  stop : s'.stop = s.stop
  notes : s'.notes = s.notes
  slots : s'.slots = s.slots
  lawful : Note.Lawful r.config.shutdownBudget (.signal s.stop e s.drainDeadline s'.drainDeadline)

/-- it makes no call, and fails only when the grace window ends after the last representable time -/
theorem applySignal_meets {κ : Type} {m : Calls.Monitor Answer κ} {k : κ} {e : Nat}
    (hidle : s.stop = none → s.drainDeadline = durationMax) :
    (r.applySignal e).Meets m (fun effect s' k' => k' = k ∧ Signalled r e s s' ∧
        (effect = .shortCircuit → s.stop.isSome = true))
      (fun _ s' k' => k' = k ∧ s'.notes = s.notes ∧ durationMax < e + r.config.shutdownBudget) s k := by
  unfold applySignal addDuration
  rw [meets_bind, meets_get]
  split
  next hstop =>
    refine ⟨rfl, ⟨rfl, rfl, rfl, ?_⟩, fun _ => by simp [hstop]⟩
    rw [hstop]
    rfl
  next stop hother hstop =>
    split_ifs with hfits
    · refine ⟨rfl, ⟨rfl, rfl, rfl, ?_⟩, nofun⟩
      rw [hstop]
      cases stop with
      | shutdown => exact absurd rfl hother
      | _ => rfl
    · exact ⟨rfl, rfl, Nat.lt_of_not_le hfits⟩
  next hstop =>
    split_ifs with hfits
    · refine ⟨rfl, ⟨rfl, rfl, rfl, ?_⟩, nofun⟩
      rw [hstop]
      exact ⟨hidle hstop, rfl, hfits⟩
    · exact ⟨rfl, rfl, Nat.lt_of_not_le hfits⟩

/-- a signal that the wait observed at `e`: from here on the loop is stopped -/
structure Observed (r : LoopRunner) (e : Nat) (s s' : LoopState) : Prop where
  stop : s'.stop.isSome = true
  slots : s'.slots = s.slots
  notes : s'.notes = s.notes ++ [.signal s.stop e s.drainDeadline s'.drainDeadline]
  lawful : Note.Lawful r.config.shutdownBudget (.signal s.stop e s.drainDeadline s'.drainDeadline)

theorem waitTick_meets {κ : Type} {m : Calls.Monitor Answer κ} {k : κ}
    {post : Unit → LoopState → κ → Prop} {err : Fatal → LoopState → κ → Prop}
    (hpermits : ∀ k q, q.waits → m.permits k q)
    (hidle : s.stop = none → s.drainDeadline = durationMax)
    (htick : ∀ a, m.expects k (.tick (tickInterval r.config) s.seenByRun) a →
      ∀ s', s'.cells = { s.cells with signalSourceGone := s'.signalSourceGone } →
        s'.notes = s.notes → s'.slots = s.slots →
        post () s' (m.next k (.tick (tickInterval r.config) s.seenByRun) a))
    (hsignal : ∀ a, m.expects k (.tick (tickInterval r.config) s.seenByRun) a →
      ∀ b, m.expects (m.next k _ a) .borrowAndUpdate b →
      ∀ c, m.expects (m.next (m.next k _ a) _ b) .now c →
      (∀ s', Observed r c.reply s s' → post () s' (m.next (m.next (m.next k _ a) _ b) .now c)) ∧
      (∀ e s', s'.notes = s.notes → durationMax < c.reply + r.config.shutdownBudget →
        err e s' (m.next (m.next (m.next k _ a) _ b) .now c))) :
    r.waitTick.Meets m post err s k := by
  unfold waitTick
  rw [meets_bind, meets_get, meets_bind]
  refine meets_call.mpr ⟨hpermits _ _ trivial, fun ended hended => ?_⟩
  have hs := htick ended hended
  have hsig := hsignal ended hended
  obtain ⟨reply, moment⟩ := ended
  cases reply with
  | elapsed => exact hs s rfl rfl rfl
  | sourceGone => exact hs _ rfl rfl rfl
  | changed =>
    rw [meets_bind]
    refine meets_call.mpr ⟨hpermits _ _ trivial, fun seen hseen => ?_⟩
    rw [meets_bind, meets_update, meets_bind]
    refine meets_call.mpr ⟨hpermits _ _ trivial, fun a ha => ?_⟩
    obtain ⟨hpost, herr⟩ := hsig seen hseen a ha
    rw [meets_bind]
    refine Meets.mono (applySignal_meets ?_) ?_ ?_
    · exact hidle
    · rintro effect s' k' ⟨rfl, hsignalled, heffect⟩
      have hslots : s'.slots = s.slots := hsignalled.slots
      have hnotes : s'.notes = s.notes := hsignalled.notes
      cases effect with
      | shortCircuit =>
        refine hpost _ ⟨?_, hslots, congrArg (· ++ _) hnotes, hsignalled.lawful⟩
        exact (congrArg Option.isSome hsignalled.stop).trans (heffect rfl)
      | begin =>
        dsimp only [note]
        rw [meets_bind, meets_update]
        split_ifs with hnone
        · exact hpost _ ⟨rfl, hslots, congrArg (· ++ _) hnotes, hsignalled.lawful⟩
        · refine hpost _ ⟨?_, hslots, congrArg (· ++ _) hnotes, hsignalled.lawful⟩
          simpa [Option.isSome_iff_ne_none] using hnone
    · rintro e s' k' ⟨rfl, hnotes, hlate⟩
      exact herr e s' hnotes hlate

theorem told_observed {e : Nat} {s' : LoopState} (h : Told r.config.shutdownBudget s k) (hk : k ≤ e)
    (ho : Observed r e s s') : Told r.config.shutdownBudget s' e := by
  have hfollows : ∀ m, s.notes.getLast? = some m →
      m.Follows (.signal s.stop e s.drainDeadline s'.drainDeadline) := by
    intro m hm
    cases m with
    | signal stop elapsed before after =>
      obtain ⟨-, hlast, hle⟩ := h.last stop elapsed before after hm
      exact ⟨hlast, hle.trans hk⟩
    | pass | stopped | drain => trivial
  refine ⟨ho.notes ▸ h.sound.push ho.lawful hfollows, ?_, ?_⟩
  · intro hnone
    have hstop := ho.stop
    rw [hnone] at hstop
    cases hstop
  · intro stop _ _ _ hlast
    rw [ho.notes] at hlast
    obtain ⟨-, rfl, -, rfl⟩ := by simpa using hlast
    exact ⟨ho.stop, rfl, le_rfl⟩

theorem waitRound_tells (h : Told r.config.shutdownBudget s k) : Tells r r.waitRound s k := by
  unfold waitRound
  unfold Tells
  rw [meets_bind, meets_get]
  split_ifs with hgone
  · rw [meets_bind]
    exact meets_call.mpr ⟨trivial, fun _ _ => h⟩
  · refine waitTick_meets (fun _ _ _ => trivial) h.idle ?_ ?_
    · intro a _ s' hc hn _
      have hstop : s'.stop = s.stop := congrArg Cells.stop hc
      have hdeadline : s'.drainDeadline = s.drainDeadline := congrArg Cells.drainDeadline hc
      refine ⟨hn ▸ h.sound, ?_, ?_⟩
      · rw [hstop, hdeadline]
        exact h.idle
      · rw [hn, hstop, hdeadline]
        exact h.last
    · intro a _ b _ c hc
      have hk : k ≤ c.reply := hc
      refine ⟨fun s' ho => told_observed h hk ho, fun _ s' hn _ => ?_⟩
      rw [hn]
      exact h.sound

/-! ## the drain step -/

def Doomed (c : Cells) (notes : List Note) (s : LoopState) : Prop :=
  Fixed c notes s ∧ ∀ slot ∈ s.slots, slot.intent.isSome = true

theorem doomed_elsewhere {c : Cells} {notes : List Note} : Elsewhere (Doomed c notes) := by
  rintro s s' hc hn hslots ⟨hfixed, hdoomed⟩
  exact ⟨fixed_elsewhere s s' hc hn hslots hfixed, hslots ▸ hdoomed⟩

theorem doomed_shrinking {c : Cells} {notes : List Note} : Shrinking (Doomed c notes) :=
  fun _ _ _ hs hs' hsub => ⟨hs'.1, fun slot hslot => hs.2 slot (hsub hslot)⟩

theorem killAll_doomed {c : Cells} {notes : List Note} {intent : StopIntent} (hs : Fixed c notes s) :
    (killWhere (fun slot _ => slot.intent.isNone) intent).Meets clock
      (fun _ s' k' => Doomed c notes s' ∧ k ≤ k') (fun _ s' k' => Doomed c notes s' ∧ k ≤ k') s k := by
  unfold killWhere
  rw [meets_bind]
  refine meets_call.mpr ⟨trivial, fun a ha => ?_⟩
  have hle : k ≤ a.reply := ha
  rw [meets_bind, meets_get, meets_bind, meets_update]
  have haborts : ∀ slots : List Slot, (forEach slots fun slot => do
      let _ ← call (.abort slot.process) : RunM Unit).Stays Query.supervises (Doomed c notes) :=
    fun slots => stays_forEach (fun slot => (stays_call trivial).bind fun _ => stays_pure _) slots
  refine Meets.mono (clock_meets (haborts _) ⟨hs, ?_⟩) ?_ ?_
  · intro _ hslot
    obtain ⟨old, -, rfl⟩ := List.mem_map.mp hslot
    split_ifs with hnone
    · rfl
    · simpa [Option.isSome_iff_ne_none] using hnone
  · rintro _ s' k' ⟨hs', hk'⟩
    exact ⟨hs', hle.trans hk'⟩
  · rintro _ s' k' ⟨hs', hk'⟩
    exact ⟨hs', hle.trans hk'⟩

theorem spared_doomed {c : Cells} {notes : List Note} (h : Doomed c notes s) : spared s = [] := by
  refine List.filter_eq_nil_iff.mpr fun slot hslot => ?_
  have hsome := h.2 slot hslot
  rw [Option.isSome_iff_ne_none] at hsome
  simpa using hsome

theorem told_drain {budget e : Nat} {s' : LoopState} (h : Told budget s k) (hk : k ≤ e) {k' : Nat}
    (hstop : s.stop.isSome = true) (hsame : s'.stop = s.stop) (hnotes : s'.notes = s.notes)
    (hlaw : s.drainDeadline ≤ e → spared s' = []) : Told budget
      { s' with notes := s'.notes ++ [.drain e s.drainDeadline (spared s')] } k' := by
  refine ⟨hnotes ▸ h.sound.push hlaw ?_, ?_, ?_⟩
  · intro m hm
    cases m with
    | signal stop elapsed before after =>
      obtain ⟨-, hlast, hle⟩ := h.last stop elapsed before after hm
      exact ⟨hlast, hle.trans hk⟩
    | pass | stopped | drain => trivial
  · intro hnone
    have hstop' : s'.stop = none := hnone
    rw [← hsame, hstop'] at hstop
    cases hstop
  · intro _ _ _ _ hlast
    simp at hlast

theorem drainStep_tells (h : Told r.config.shutdownBudget s k) (hstop : s.stop.isSome = true) :
    Tells r r.drainStep s k := by
  unfold drainStep
  unfold Tells
  rw [meets_bind]
  refine meets_call.mpr ⟨trivial, fun a ha => ?_⟩
  have hk : k ≤ a.reply := ha
  rw [meets_bind, meets_get]
  split_ifs with hdue
  · rw [meets_bind]
    have hfixed : Fixed s.cells s.notes s := ⟨rfl, rfl⟩
    refine (killAll_doomed hfixed).mono ?_ ?_
    · rintro _ s1 k1 ⟨hs1, -⟩
      rw [meets_bind]
      refine (clock_meets (recordReaps_stays doomed_elsewhere doomed_shrinking) hs1).mono ?_ ?_
      · rintro _ s2 k2 ⟨hs2, -⟩
        have hsame : s2.stop = s.stop := congrArg Cells.stop hs2.1.1
        have hnotes : s2.notes = s.notes := hs2.1.2
        have hspared : spared s2 = [] := spared_doomed hs2
        rw [meets_bind, meets_get]
        unfold addDuration
        split_ifs with hleft hfits
        · exact told_drain h hk hstop hsame hnotes fun _ => hspared
        · show Sound _ s2.notes
          rw [hnotes]
          exact h.sound
        · exact told_drain h hk hstop hsame hnotes fun _ => hspared
      · rintro _ s2 k2 ⟨hs2, -⟩
        rw [hs2.1.2]
        exact h.sound
    · rintro _ s1 k1 ⟨hs1, -⟩
      rw [hs1.1.2]
      exact h.sound
  · refine told_drain h hk hstop rfl rfl fun hle => absurd ?_ hdue
    simp [hle]

/-! ## the rounds -/

def ToldIdle (budget time : Nat) (s : LoopState) : Prop := Told budget s time ∧ s.stop = none

theorem toldIdle_planned {budget time : Nat} : Planned (ToldIdle budget time) := by
  constructor
  · rintro s s' hc hn - ⟨h, hs⟩
    exact ⟨h.of_cells hc hn, (congrArg Cells.stop hc).trans hs⟩
  · rintro s ready excluded ended ⟨h, hs⟩
    exact ⟨h.push trivial (h.follows_of_idle hs) nofun, hs⟩
  · rintro s slot - ⟨h, hs⟩
    exact ⟨⟨h.sound, h.idle, h.last⟩, hs⟩

theorem afterSnapshot_tells {snapshot : BoardSnapshot} (h : Told r.config.shutdownBudget s k)
    (hs : s.stop = none) : Tells r (r.afterSnapshot snapshot) s k := by
  have hnoted : Told r.config.shutdownBudget
      { s with notes := s.notes ++ [.stopped (snapshot.ready.map (·.taskId))] } k :=
    h.push trivial (h.follows_of_idle hs) nofun
  refine tells_now fun e he => ?_
  split_ifs with hbudget
  · unfold Tells note
    refine tells_now fun e' he' => ?_
    exact tells_bind (declareStop_tells ((hnoted.later he).later he') hs) fun _ _ _ h => h
  unfold Tells
  rw [meets_bind]
  refine meets_call.mpr ⟨trivial, fun _ _ => ?_⟩
  rw [meets_bind]
  refine meets_call.mpr ⟨trivial, fun _ _ => ?_⟩
  rw [meets_bind, meets_get, meets_bind]
  refine meets_call.mpr ⟨trivial, fun looked _ => ?_⟩
  split_ifs with hchanged
  · unfold note
    rw [meets_bind]
    exact tells_bind (shutdownFromPass_tells (hnoted.later he) hs) fun _ _ _ h => h
  refine tells_now fun e' he' => ?_
  have hplan : (do
      let now ← r.nowSecs e'
      r.planAndSpawn e' now snapshot
      pure false : RunM Bool).Stays Query.plans (ToldIdle r.config.shutdownBudget e') :=
    stays_nowSecs.bind fun now => (planAndSpawn_stays toldIdle_planned).bind fun _ => stays_pure _
  refine (clock_meets hplan ⟨(h.later he).later he', hs⟩).mono ?_ ?_
  · rintro _ s' k' ⟨hs', hk'⟩
    exact hs'.1.later hk'
  · rintro _ s' k' ⟨hs', -⟩
    exact hs'.1.sound

theorem told_rules : RoundRules r clock (Told r.config.shutdownBudget)
    fun s _ => Sound r.config.shutdownBudget s.notes where
  frame hc hn h := h.of_cells hc hn
  call := by
    intro s k q h _
    refine ⟨trivial, fun a ha => ?_⟩
    cases q with
    | now => exact h.later ha
    | _ => exact h
  err h := h.sound
  seen _ h := ⟨h.sound, h.idle, h.last⟩
  stop _ _ h hs := declareStop_tells h hs
  cap := by
    intro s k h hs
    refine ⟨h.sound, nofun, fun stop elapsed before after hlast => ?_⟩
    have hstop := (h.last stop elapsed before after hlast).1
    rw [hs] at hstop
    cases hstop
  shutdown _ h hs := shutdownFromPass_tells ⟨h.sound, h.idle, h.last⟩ hs
  drain := drainStep_tells
  wait := waitRound_tells
  poll := by
    intro s k _ h hs
    refine ⟨trivial, fun a _ => ?_⟩
    obtain ⟨polled, moment⟩ := a
    cases polled with
    | snapshot => exact afterSnapshot_tells h hs
    | pollFailed | shutdown | budgetExpired => exact h

theorem sound_lasts {budget : Nat} : Lasts clock Query.supervises fun s _ => Sound budget s.notes :=
  ⟨fun _ hn h => hn ▸ h, fun h _ => ⟨trivial, fun _ _ => h⟩⟩

theorem run_sound (r : LoopRunner) (n : Nat) :
    (r.run n).Keeps clock (fun res _ => Sound r.config.shutdownBudget
      (res.elim (·.notes) (·.2.notes))) 0 := by
  have hempty : Sound r.config.shutdownBudget [] := ⟨nofun, .nil⟩
  refine (r.run_keeps (I := Told r.config.shutdownBudget)
    (E := fun _ s _ => Sound r.config.shutdownBudget s.notes)
    (F := fun _ s _ => Sound r.config.shutdownBudget s.notes) (fun _ => hempty) ?_
    (fun result _ _ h => conclude_meets_of_lasts sound_lasts sound_lasts (by cases result <;> exact h)) n
    ⟨hempty, fun _ => rfl, nofun⟩).mono ?_
  · intro s k h
    refine (round_meets_of_rules told_rules h).mono ?_ fun _ _ _ h => h
    intro done _ _ h'
    cases done with
    | false => exact h'
    | true => exact h'.sound
  · rintro (s | ⟨result, s⟩) k h
    · exact h.sound
    · exact h

end

end Campaign

import Mathlib

/-!
# Kick-off conditions

The trigger set of a campaign session: with no session in flight a pass goes on only when an armed
condition holds.  The sets of task ids are lists here, of which only membership and the number of
members are used.
-/

namespace Campaign

inductive KickoffCondition where
  | newEligibleWork | unblockedPromotion | slotReleased | budgetWindowReset | externalEvent

def KickoffCondition.asStr : KickoffCondition → String
  | .newEligibleWork => "new-eligible-work"
  | .unblockedPromotion => "unblocked-promotion"
  | .slotReleased => "slot-released"
  | .budgetWindowReset => "budget-window-reset"
  | .externalEvent => "external-event"

structure KickoffSettings where
  newEligibleWork : Bool
  unblockedPromotion : Bool
  slotReleased : Bool
  budgetWindowReset : Bool
  externalEvent : Bool

def KickoffSettings.builtinDefaults : KickoffSettings :=
  { newEligibleWork := true
    unblockedPromotion := true
    slotReleased := true
    budgetWindowReset := true
    externalEvent := false }

structure KickoffExternalEvent where
  id : String

structure KickoffObservation where
  readyIds : List String
  previousReadyIds : List String
  previousBlockedIds : List String
  slotReleased : Bool
  budgetWindowReset : Bool
  externalEvents : List KickoffExternalEvent

structure KickoffVerdict where
  fired : List KickoffCondition

def KickoffVerdict.kickOff (verdict : KickoffVerdict) : Bool := !verdict.fired.isEmpty

def evaluate (settings : KickoffSettings) (observation : KickoffObservation) : KickoffVerdict :=
  let held := [
    (.newEligibleWork, settings.newEligibleWork &&
      observation.readyIds.any (!observation.previousReadyIds.contains ·)),
    (.unblockedPromotion, settings.unblockedPromotion &&
      observation.readyIds.any (observation.previousBlockedIds.contains ·)),
    (.slotReleased, settings.slotReleased && observation.slotReleased),
    (.budgetWindowReset, settings.budgetWindowReset && observation.budgetWindowReset),
    (.externalEvent, settings.externalEvent && !observation.externalEvents.isEmpty)]
  { fired := (held.filter (·.2)).map Prod.fst }

/-- with the first and the third condition armed, a pass without a kick-off has seen every ready task
before, and no slot was released -/
theorem stale_of_not_kickOff {settings : KickoffSettings} {observation : KickoffObservation}
    (hnew : settings.newEligibleWork = true) (hslot : settings.slotReleased = true)
    (h : (evaluate settings observation).kickOff = false) : observation.slotReleased = false ∧
      ∀ id ∈ observation.readyIds, id ∈ observation.previousReadyIds := by
  simp only [evaluate, KickoffVerdict.kickOff, Bool.not_eq_false', List.isEmpty_iff,
    List.map_eq_nil_iff, List.filter_eq_nil_iff] at h
  simp only [hnew, hslot, List.forall_mem_cons, Bool.true_and] at h
  refine ⟨by simpa using h.2.2.1, fun id hid => ?_⟩
  have hseen := h.1
  simp only [Bool.not_eq_true, List.any_eq_false] at hseen
  simpa using hseen id hid

end Campaign

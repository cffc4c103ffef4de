import Orchestraitor.Base.Ordered

/-!
# The session lease registry

`InMemoryLeaseRegistry` keeps leases by item and session.  A claim scans the leases of the item for
one that has not expired and inserts under the same lock, so a call is one step; the clock is read
inside it.  The poisoning of the lock is left out.

`Held` is the invariant of a registry at an instant: each entry carries the session of its key, and
from that instant on each item has at most one unexpired lease.
-/

namespace Board
open Base

structure ItemLease where
  holder : String
  expiresAtUnixSecs : Nat
  deriving DecidableEq

def ItemLease.isExpiredAt (lease : ItemLease) (now : Nat) : Bool := now ≥ lease.expiresAtUnixSecs

inductive ClaimOutcome where
  | claimed
  | renewed
  | foreignHolder (holder : String)
  | ownExpired
  deriving DecidableEq

abbrev LeaseRegistry := OrdMap (String × String) ItemLease

namespace LeaseRegistry

def live (leases : LeaseRegistry) (now : Nat) (item : String) : Option ItemLease :=
  ((leases.toList.filter (fun e => e.1.1 = item)).map Prod.snd).find?
    (fun lease => !lease.isExpiredAt now)

def tryClaim (leases : LeaseRegistry) (now : Nat) (item session : String) (expires : Nat) :
    ClaimOutcome × LeaseRegistry :=
  let key := (item, session)
  let own : ItemLease := { holder := session, expiresAtUnixSecs := expires }
  match live leases now item with
  | some lease =>
    if lease.holder ≠ session then (.foreignHolder lease.holder, leases)
    else (.renewed, leases.insert key own)
  | none =>
    if leases[key]?.isSome then (.ownExpired, leases)
    else (.claimed, leases.insert key own)

def release (leases : LeaseRegistry) (item session : String) : LeaseRegistry :=
  leases.erase (item, session)

/-! ## one call -/

def Unexpired (leases : LeaseRegistry) (item session : String) (now : Nat) : Prop :=
  ∃ lease, leases[(item, session)]? = some lease ∧ now < lease.expiresAtUnixSecs

def Expired (leases : LeaseRegistry) (item session : String) (now : Nat) : Prop :=
  ∃ lease, leases[(item, session)]? = some lease ∧ lease.expiresAtUnixSecs ≤ now

/-- entries carry the session of their key, and from `now` on no item has two unexpired leases -/
structure Held (leases : LeaseRegistry) (now : Nat) : Prop where
  holder : ∀ (item session : String) (lease : ItemLease),
    leases[(item, session)]? = some lease → lease.holder = session
  exclusive : ∀ item t s₁ s₂, now ≤ t → leases.Unexpired item s₁ t → leases.Unexpired item s₂ t →
    s₁ = s₂

variable {leases : LeaseRegistry} {now : Nat} {item s : String}

theorem live_some {lease : ItemLease} (h : live leases now item = some lease) :
    ∃ session : String, leases[(item, session)]? = some lease ∧ now < lease.expiresAtUnixSecs := by
  have hp := List.find?_some h
  obtain ⟨⟨⟨i, session⟩, l⟩, he, rfl⟩ := List.mem_map.mp (List.mem_of_find?_eq_some h)
  obtain ⟨hmem, hi⟩ := List.mem_filter.mp he
  obtain rfl : i = item := by simpa using hi
  exact ⟨session, leases.get_of_mem_toList hmem, by simpa [ItemLease.isExpiredAt] using hp⟩

theorem live_none (h : live leases now item = none) (session : String) :
    ¬ leases.Unexpired item session now := by
  rintro ⟨lease, hl, hlt⟩
  rw [live, List.find?_eq_none] at h
  have hmem : lease ∈ (leases.toList.filter (fun e => e.1.1 = item)).map Prod.snd := by
    refine List.mem_map.mpr ⟨((item, session), lease), List.mem_filter.mpr ⟨?_, by simp⟩, rfl⟩
    exact Std.ExtTreeMap.mem_toList_iff_getElem?_eq_some.mpr hl
  have := h lease hmem
  simp [ItemLease.isExpiredAt] at this
  omega

theorem tryClaim_cases (h : Held leases now) (item session : String) (expires : Nat) :
    (∃ s, s ≠ session ∧ leases.Unexpired item s now ∧
      tryClaim leases now item session expires = (.foreignHolder s, leases)) ∨
    (leases.Unexpired item session now ∧ tryClaim leases now item session expires =
      (.renewed, leases.insert (item, session) { holder := session, expiresAtUnixSecs := expires })) ∨
    ((∀ s, ¬ leases.Unexpired item s now) ∧ leases.Expired item session now ∧
      tryClaim leases now item session expires = (.ownExpired, leases)) ∨
    ((∀ s, ¬ leases.Unexpired item s now) ∧ leases[(item, session)]? = none ∧
      tryClaim leases now item session expires = (.claimed,
        leases.insert (item, session) { holder := session, expiresAtUnixSecs := expires })) := by
  unfold tryClaim
  cases hl : live leases now item with
  | some lease =>
    obtain ⟨s, hs, hlt⟩ := live_some hl
    have hholder := h.holder item s lease hs
    by_cases e : lease.holder = session
    · have es : s = session := hholder.symm.trans e
      exact Or.inr (Or.inl ⟨⟨lease, es ▸ hs, hlt⟩, by simp [e]⟩)
    · exact Or.inl ⟨s, fun es => e (hholder.trans es), ⟨lease, hs, hlt⟩, by simp [e, hholder.symm]⟩
  | none =>
    have hnone := live_none hl
    cases hk : leases[(item, session)]? with
    | none => exact Or.inr (Or.inr (Or.inr ⟨hnone, rfl, by simp only [hk]; rfl⟩))
    | some lease =>
      refine Or.inr (Or.inr (Or.inl ⟨hnone, ⟨lease, hk, ?_⟩, by simp only [hk]; rfl⟩))
      by_contra hlt
      exact hnone session ⟨lease, hk, by omega⟩

theorem Unexpired.insert {session i : String} {expires t : Nat} (h : Unexpired (leases.insert (item,
      session) { holder := session, expiresAtUnixSecs := expires }) i s t) :
    (i = item ∧ s = session) ∨ leases.Unexpired i s t := by
  obtain ⟨lease, hl, hlt⟩ := h
  rw [OrdMap.get_insert] at hl
  split_ifs at hl with e
  · exact Or.inl (Prod.mk.inj e)
  · exact Or.inr ⟨lease, hl, hlt⟩

theorem Unexpired.mono {t t' : Nat} (h : leases.Unexpired item s t) (ht : t' ≤ t) :
    leases.Unexpired item s t' := by
  obtain ⟨lease, hl, hlt⟩ := h
  exact ⟨lease, hl, by omega⟩

namespace Held
variable {leases : LeaseRegistry} {now : Nat}

theorem empty (now : Nat) : Held ∅ now :=
  ⟨fun _ _ _ h => absurd h (by simp), fun _ _ _ _ _ ⟨_, h, _⟩ _ => absurd h (by simp)⟩

theorem mono (h : Held leases now) {now' : Nat} (hle : now ≤ now') : Held leases now' :=
  ⟨h.holder, fun item t s₁ s₂ ht => h.exclusive item t s₁ s₂ (hle.trans ht)⟩

theorem insert (h : Held leases now) {item session : String} (expires : Nat)
    (hfree : ∀ s, s ≠ session → ¬ leases.Unexpired item s now) :
    Held (leases.insert (item, session) { holder := session, expiresAtUnixSecs := expires }) now := by
  refine ⟨fun i s lease hl => ?_, fun i t s₁ s₂ ht h1 h2 => ?_⟩
  · rw [OrdMap.get_insert] at hl
    split_ifs at hl with e
    · obtain rfl := Option.some.inj hl
      exact (Prod.mk.inj e).2.symm
    · exact h.holder i s lease hl
  · -- on the item every other lease has expired at `now`, and stays so
    have hown : ∀ s, i = item → leases.Unexpired i s t → s = session := by
      rintro s rfl hs
      by_contra hne
      exact hfree s hne (hs.mono ht)
    rcases h1.insert with ⟨hi, e1⟩ | old1 <;> rcases h2.insert with ⟨hi, e2⟩ | old2
    · exact e1.trans e2.symm
    · exact e1.trans (hown s₂ hi old2).symm
    · exact (hown s₁ hi old1).trans e2.symm
    · exact h.exclusive i t s₁ s₂ ht old1 old2

theorem tryClaim (h : Held leases now) (item session : String) (expires : Nat) :
    Held (tryClaim leases now item session expires).2 now := by
  obtain ⟨s, -, -, e⟩ | ⟨hown, e⟩ | ⟨-, -, e⟩ | ⟨hfree, -, e⟩ :=
    tryClaim_cases h item session expires
  · rwa [e]
  · rw [e]
    exact h.insert expires fun s hne hs => hne (h.exclusive item now s session (le_refl _) hs hown)
  · rwa [e]
  · rw [e]
    exact h.insert expires fun s _ => hfree s

theorem release (h : Held leases now) (item session : String) :
    Held (release leases item session) now := by
  have hget : ∀ (k : String × String) (lease : ItemLease),
      (LeaseRegistry.release leases item session)[k]? = some lease →
      leases[k]? = some lease := by
    intro _ _ hl
    rw [LeaseRegistry.release, OrdMap.get_erase] at hl
    split_ifs at hl
    exact hl
  refine ⟨fun i s lease hl => h.holder i s lease (hget _ _ hl), fun i t s₁ s₂ ht h1 h2 => ?_⟩
  obtain ⟨l1, hl1, hlt1⟩ := h1
  obtain ⟨l2, hl2, hlt2⟩ := h2
  exact h.exclusive i t s₁ s₂ ht ⟨l1, hget _ _ hl1, hlt1⟩ ⟨l2, hget _ _ hl2, hlt2⟩

end Held

/-- a claim succeeds when no other session has an unexpired lease, unless the session's own lease
has expired -/
theorem tryClaim_succeeds_iff (h : Held leases now) (item session : String) (expires : Nat) :
    ((tryClaim leases now item session expires).1 = .claimed ∨
      (tryClaim leases now item session expires).1 = .renewed) ↔
    (∀ s, s ≠ session → ¬ leases.Unexpired item s now) ∧ ¬ leases.Expired item session now := by
  obtain ⟨s, hne, hs, e⟩ | ⟨hown, e⟩ | ⟨-, hexp, e⟩ | ⟨hfree, hnone, e⟩ :=
    tryClaim_cases h item session expires
  · simp only [e, reduceCtorEq, or_self, false_iff, not_and]
    exact fun hall => absurd hs (hall s hne)
  · simp only [e, reduceCtorEq, false_or, true_iff]
    refine ⟨fun s hne hs => hne (h.exclusive item now s session (le_refl _) hs hown), ?_⟩
    rintro ⟨lease, hl, hle⟩
    obtain ⟨lease', hl', hlt⟩ := hown
    obtain rfl := Option.some.inj (hl.symm.trans hl')
    omega
  · simp only [e, reduceCtorEq, or_self, false_iff, not_and, not_not]
    exact fun _ => hexp
  · simp only [e, true_or, true_iff]
    refine ⟨fun s _ => hfree s, ?_⟩
    rintro ⟨lease, hl, -⟩
    exact absurd (hl.symm.trans hnone) (by simp)

/-! ## runs -/

inductive LeaseCall where
  | tryClaim (item session : String) (expires : Nat)
  | release (item session : String)

def LeaseCall.session : LeaseCall → String
  | .tryClaim _ session _ | .release _ session => session

def apply (leases : LeaseRegistry) (now : Nat) : LeaseCall → LeaseRegistry
  | .tryClaim item session expires => (tryClaim leases now item session expires).2
  | .release item session => release leases item session

def run (calls : List (Nat × LeaseCall)) : LeaseRegistry :=
  calls.foldl (fun leases c => apply leases c.1 c.2) ∅

def ClockedUntil (calls : List (Nat × LeaseCall)) (now : Nat) : Prop :=
  (calls.map Prod.fst ++ [now]).Pairwise (· ≤ ·)

theorem Held.apply (h : Held leases now) (call : LeaseCall) : Held (apply leases now call) now := by
  cases call with
  | tryClaim item session expires => exact h.tryClaim item session expires
  | release item session => exact h.release item session

theorem held_run {calls : List (Nat × LeaseCall)} (h : ClockedUntil calls now) :
    Held (run calls) now := by
  induction calls using List.reverseRecOn generalizing now with
  | nil => exact Held.empty now
  | append_singleton calls c ih =>
    rw [ClockedUntil, List.pairwise_append] at h
    obtain ⟨hcalls, -, hlast⟩ := h
    rw [List.map_append] at hcalls hlast
    have hprev : Held (run calls) c.1 := ih hcalls
    rw [run, List.foldl_append]
    exact (hprev.apply c.2).mono (hlast c.1 (by simp) now (by simp))

theorem apply_other (leases : LeaseRegistry) (now : Nat) (call : LeaseCall) (hs : s ≠ call.session) :
    (apply leases now call)[(item, s)]? = leases[(item, s)]? := by
  cases call with
  | tryClaim i session =>
    have hk : ¬ (item, s) = (i, session) := fun e => hs (Prod.mk.inj e).2
    simp only [apply, tryClaim]
    cases live leases now i with
    | some => dsimp only; split_ifs <;> simp [hk]
    | none => dsimp only; split_ifs <;> simp [hk]
  | release i session =>
    have hk : ¬ (item, s) = (i, session) := fun e => hs (Prod.mk.inj e).2
    rw [apply, release, OrdMap.get_erase, if_neg hk]

end LeaseRegistry

end Board

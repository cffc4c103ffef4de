import Orchestraitor.Delivery.ReviewLoop

/-!
# Reviewer selection (`reviewer_selection.rs`)

Candidates are appended in a fixed priority sequence, deduplicated by domain, and truncated to
`max_reviewers` with the required domains kept.
-/

namespace Delivery
open Base Std List

def generalDomain : DomainId := "general"
def securityDomain : DomainId := "security"
def testingDomain : DomainId := "testing"
def roleReviewing : String := "reviewing"

/-- without the languages and `involves_ui`, which selection does not read -/
structure ChangeSetProfile where
  changedFiles : List String := []
  taskDomain : Option DomainId := none
  risk : Option RiskClass := none
  involvesDependenciesOrConfig : Bool := false
  involvesAuthPermissionsScriptsExecution : Bool := false
  involvesCoverageOrVerification : Bool := false
  arbitraitorFindings : Bool := false

inductive SelectionReason where
  | generalBaseline | securityTriggered | taskDomainMatch | coverageChanged | arbitraitorFindings
  | requiredByConfig

structure ReviewerSlot where
  domain : DomainId
  role : String := roleReviewing
  reason : SelectionReason

abbrev ReviewerSet := List ReviewerSlot

inductive ReviewerSelectionError where
  | invalidConfig (err : ReviewLoopConfigError)
  | configUnsatisfiable (required maxReviewers : Nat)
  deriving DecidableEq

def pushSlot (slots : List ReviewerSlot) (domain : DomainId) (reason : SelectionReason) :
    List ReviewerSlot :=
  if slots.any (fun slot => slot.domain == domain) then slots
  else slots ++ [{ domain := domain, reason := reason }]

def pushWhen (trigger : Bool) (domain : DomainId) (reason : SelectionReason)
    (slots : List ReviewerSlot) : List ReviewerSlot :=
  if trigger then pushSlot slots domain reason else slots

def ChangeSetProfile.securityTriggered (profile : ChangeSetProfile) : Bool :=
  profile.involvesAuthPermissionsScriptsExecution || profile.involvesDependenciesOrConfig ||
    profile.risk == some .critical || profile.taskDomain == some securityDomain

def triggeredSlots (profile : ChangeSetProfile) : List ReviewerSlot :=
  let slots := pushSlot [] generalDomain .generalBaseline
  let slots := pushWhen profile.securityTriggered securityDomain .securityTriggered slots
  let slots := pushWhen profile.arbitraitorFindings securityDomain .arbitraitorFindings slots
  let slots := match profile.taskDomain with
    | some domain => pushSlot slots domain .taskDomainMatch
    | none => slots
  pushWhen profile.involvesCoverageOrVerification testingDomain .coverageChanged slots

def withRequired (required : List DomainId) (slots : List ReviewerSlot) : List ReviewerSlot :=
  let missing : OrdSet DomainId :=
    ExtTreeSet.ofList (required.filter (fun d => !slots.any (fun slot => slot.domain == d))) compare
  missing.toList.foldl (fun acc d => pushSlot acc d .requiredByConfig) slots

/-- the `retain` pass: required slots stay, others while the optional budget lasts -/
def retainSlots (required : List DomainId) (optionalBudget : Nat) :
    Nat → List ReviewerSlot → List ReviewerSlot
  | _, [] => []
  | used, slot :: rest =>
    if slot.domain ∈ required then slot :: retainSlots required optionalBudget used rest
    else if used < optionalBudget then slot :: retainSlots required optionalBudget (used + 1) rest
    else retainSlots required optionalBudget used rest

def selectReviewers (profile : ChangeSetProfile) (config : ReviewLoopConfig) :
    Except ReviewerSelectionError ReviewerSet :=
  match config.validate with
  | .error err => .error (.invalidConfig err)
  | .ok () =>
    let required := config.requiredReviewerDomains
    if required.length > config.maxReviewers then
      .error (.configUnsatisfiable required.length config.maxReviewers)
    else
      let slots := withRequired required (triggeredSlots profile)
      if slots.length > config.maxReviewers then
        let requiredSet : OrdSet DomainId := ExtTreeSet.ofList required compare
        .ok (retainSlots required (config.maxReviewers - requiredSet.size) 0 slots)
      else .ok slots

theorem selectReviewers_ok_iff {profile : ChangeSetProfile} {config : ReviewLoopConfig}
    {slots : ReviewerSet} : selectReviewers profile config = .ok slots ↔
      config.validate = .ok () ∧ config.requiredReviewerDomains.length ≤ config.maxReviewers ∧
      slots = let candidates := withRequired config.requiredReviewerDomains (triggeredSlots profile)
        if candidates.length > config.maxReviewers then
          retainSlots config.requiredReviewerDomains (config.maxReviewers -
            (ExtTreeSet.ofList config.requiredReviewerDomains compare : OrdSet DomainId).size) 0 candidates
        else candidates := by
  unfold selectReviewers
  cases config.validate with
  | error => simp
  | ok =>
    dsimp only
    split_ifs <;> simp_all [eq_comm]

theorem selectReviewers_total {config : ReviewLoopConfig} {profile : ChangeSetProfile}
    {slots : ReviewerSet} (h : selectReviewers profile config = .ok slots)
    (profile' : ChangeSetProfile) : ∃ slots', selectReviewers profile' config = .ok slots' := by
  obtain ⟨hvalid, hfits, -⟩ := selectReviewers_ok_iff.mp h
  exact ⟨_, selectReviewers_ok_iff.mpr ⟨hvalid, hfits, rfl⟩⟩

/-! ## the candidates -/

def triggeredDomains (profile : ChangeSetProfile) : List DomainId :=
  [generalDomain] ++
    (if profile.securityTriggered || profile.arbitraitorFindings then [securityDomain] else []) ++
    profile.taskDomain.toList ++
    (if profile.involvesCoverageOrVerification then [testingDomain] else [])

/-- the slots list `domains`, each domain where it occurs first -/
structure Lists (slots : List ReviewerSlot) (domains : List DomainId) : Prop where
  first : slots.map (·.domain) = domains.eraseDups
  distinct : (slots.map (·.domain)).Nodup

section
variable {slots : List ReviewerSlot} {domains required : List DomainId} {d : DomainId}

theorem Lists.mem_iff (h : Lists slots domains) : d ∈ slots.map (·.domain) ↔ d ∈ domains := by
  rw [h.first, mem_eraseDups]

theorem Lists.any_iff (h : Lists slots domains) :
    slots.any (fun slot => slot.domain == d) = true ↔ d ∈ domains := by
  rw [← h.mem_iff]
  simp

theorem Lists.push (h : Lists slots domains) (d : DomainId) (reason : SelectionReason) :
    Lists (pushSlot slots d reason) (domains ++ [d]) := by
  unfold pushSlot
  split_ifs with hany
  · refine ⟨?_, h.distinct⟩
    rw [h.first, eraseDups_append]
    simp [removeAll, h.any_iff.mp hany]
  · have hd : d ∉ domains := fun hd => hany (h.any_iff.mpr hd)
    constructor
    · rw [map_append, h.first, eraseDups_append]
      simp [removeAll, hd, eraseDups_cons]
    · rw [map_append]
      exact h.distinct.append (nodup_singleton d)
        (disjoint_singleton.mpr fun hmem => hd (h.mem_iff.mp hmem))

theorem Lists.pushWhen (h : Lists slots domains) (trigger : Bool) (d : DomainId)
    (reason : SelectionReason) :
    Lists (pushWhen trigger d reason slots) (domains ++ if trigger then [d] else []) := by
  cases trigger with
  | true => exact h.push d reason
  | false => simpa [Delivery.pushWhen] using h

theorem Lists.pushAll (h : Lists slots domains) (ds : List DomainId) :
    Lists (ds.foldl (fun acc a => pushSlot acc a .requiredByConfig) slots) (domains ++ ds) := by
  induction ds generalizing slots domains with
  | nil => simpa using h
  | cons d _ ih => simpa using ih (h.push d .requiredByConfig)

theorem triggeredSlots_lists (profile : ChangeSetProfile) :
    Lists (triggeredSlots profile) (triggeredDomains profile) := by
  have hsecurity : ∀ triggered findings, Lists (pushWhen findings securityDomain .arbitraitorFindings
      (pushWhen triggered securityDomain .securityTriggered
        (pushSlot [] generalDomain .generalBaseline)))
      ([generalDomain] ++ if triggered || findings then [securityDomain] else []) := by
    intro triggered findings
    cases triggered <;> cases findings <;> exact ⟨by decide, by decide⟩
  unfold triggeredSlots triggeredDomains
  refine Lists.pushWhen ?_ _ _ _
  cases profile.taskDomain with
  | none =>
    rw [Option.toList_none, append_nil]
    exact hsecurity _ _
  | some domain => exact (hsecurity _ _).push domain .taskDomainMatch

theorem withRequired_lists (h : Lists slots domains) (required : List DomainId) :
    ∃ missing, missing.Pairwise (· < ·) ∧ (∀ d, d ∈ missing ↔ d ∈ required ∧ d ∉ domains) ∧
      Lists (withRequired required slots) (domains ++ missing) := by
  refine ⟨_, ?_, fun d => ?_, h.pushAll _⟩
  · exact ExtTreeSet.ordered_toList.imp compare_lt_iff_lt.mp
  · rw [ExtTreeSet.mem_toList, ExtTreeSet.mem_ofList, contains_iff_mem, mem_filter,
      Bool.not_eq_true', ← Bool.not_eq_true, h.any_iff]

theorem Lists.required_mem {missing : List DomainId} (h : Lists slots (domains ++ missing))
    (hmissing : ∀ d, d ∈ missing ↔ d ∈ required ∧ d ∉ domains) (d : DomainId) (hd : d ∈ required) :
    d ∈ slots.map (·.domain) := by
  rw [h.mem_iff, mem_append]
  exact or_iff_not_imp_left.mpr fun hnot => (hmissing d).mpr ⟨hd, hnot⟩

/-! ## the cut -/

variable {budget used : Nat}

theorem retainSlots_sublist : retainSlots required budget used slots <+ slots := by
  fun_induction retainSlots with
  | case1 => exact .slnil
  | case2 _ _ _ _ ih => exact ih.cons_cons _
  | case3 _ _ _ _ _ ih => exact ih.cons_cons _
  | case4 _ _ _ _ _ ih => exact ih.cons _

theorem retainSlots_required : (retainSlots required budget used slots).filter (·.domain ∈ required) =
    slots.filter (·.domain ∈ required) := by
  fun_induction retainSlots <;> simp_all

theorem retainSlots_optional : (retainSlots required budget used slots).filter (·.domain ∉ required) =
    (slots.filter (·.domain ∉ required)).take (budget - used) := by
  fun_induction retainSlots with
  | case1 => simp
  | case2 used slot rest hreq ih => simpa [hreq] using ih
  | case3 used slot rest hreq hlt ih =>
    rw [filter_cons_of_pos (by simpa using hreq), filter_cons_of_pos (by simpa using hreq), ih,
      show budget - used = budget - (used + 1) + 1 by omega, take_succ_cons]
  | case4 used slot rest hreq hlt ih =>
    rw [ih, Nat.sub_eq_zero_of_le (Nat.le_of_not_lt hlt), take_zero, take_zero]

theorem length_required (h : (slots.map (·.domain)).Nodup)
    (hall : ∀ d ∈ required, d ∈ slots.map (·.domain)) :
    (slots.filter (·.domain ∈ required)).length =
      (ExtTreeSet.ofList required compare : OrdSet DomainId).size := by
  rw [← ExtTreeSet.length_toList, ← length_map (·.domain)]
  refine Perm.length_eq ((perm_ext_iff_of_nodup ((filter_sublist.map _).nodup h)
    (OrdSet.nodup_toList _)).mpr fun d => ?_)
  rw [ExtTreeSet.mem_toList, ExtTreeSet.mem_ofList, contains_iff_mem]
  constructor
  · intro hd
    obtain ⟨slot, hslot, rfl⟩ := mem_map.mp hd
    exact of_decide_eq_true (mem_filter.mp hslot).2
  · intro hd
    obtain ⟨slot, hslot, rfl⟩ := mem_map.mp (hall d hd)
    exact mem_map_of_mem (mem_filter.mpr ⟨hslot, decide_eq_true hd⟩)

structure Selected (required domains : List DomainId) (max : Nat) (slots : ReviewerSet) : Prop where
  distinct : (slots.map (·.domain)).Nodup
  nonempty : 1 ≤ slots.length
  capped : slots.length ≤ max
  covers : ∀ d ∈ required, ∃ slot ∈ slots, slot.domain = d
  /-- the candidates lose only their last optional ones, and none if they fit -/
  cut : ∃ candidates : List ReviewerSlot, ∃ missing : List DomainId,
    missing.Pairwise (· < ·) ∧ (∀ d, d ∈ missing ↔ d ∈ required ∧ d ∉ domains) ∧
    candidates.map (·.domain) = (domains ++ missing).eraseDups ∧ slots <+ candidates ∧
    slots.filter (·.domain ∈ required) = candidates.filter (·.domain ∈ required) ∧
    slots.filter (·.domain ∉ required) <+: candidates.filter (·.domain ∉ required) ∧
    (candidates.length ≤ max → slots = candidates)

theorem Lists.selected {candidates : List ReviewerSlot} {missing : List DomainId} {max : Nat}
    (h : Lists candidates (domains ++ missing)) (hsorted : missing.Pairwise (· < ·))
    (hmissing : ∀ d, d ∈ missing ↔ d ∈ required ∧ d ∉ domains) (hsub : slots <+ candidates)
    (hkept : slots.filter (·.domain ∈ required) = candidates.filter (·.domain ∈ required))
    (hcut : slots.filter (·.domain ∉ required) <+: candidates.filter (·.domain ∉ required))
    (hlength : slots.length = min candidates.length max) (hpos : 0 < min candidates.length max) :
    Selected required domains max slots := by
  refine ⟨(hsub.map _).nodup h.distinct, by omega, by omega, fun d hd => ?_, candidates, missing,
    hsorted, hmissing, h.first, hsub, hkept, hcut, fun hfits => hsub.eq_of_length (by omega)⟩
  obtain ⟨slot, hslot, rfl⟩ := mem_map.mp (h.required_mem hmissing d hd)
  have hmem : slot ∈ candidates.filter (·.domain ∈ required) :=
    mem_filter.mpr ⟨hslot, decide_eq_true hd⟩
  rw [← hkept] at hmem
  exact ⟨slot, (mem_filter.mp hmem).1, rfl⟩

theorem select_reviewers_correct (profile : ChangeSetProfile) (config : ReviewLoopConfig) :
    ((∃ slots, selectReviewers profile config = .ok slots) ↔ config.validate = .ok () ∧
      config.requiredReviewerDomains.length ≤ config.maxReviewers) ∧
    ∀ slots, selectReviewers profile config = .ok slots → Selected config.requiredReviewerDomains
      (triggeredDomains profile) config.maxReviewers slots := by
  constructor
  · simp [selectReviewers_ok_iff]
  · intro _ h
    obtain ⟨hvalid, hfits, rfl⟩ := selectReviewers_ok_iff.mp h
    have hmax : 0 < config.maxReviewers := (ReviewLoopConfig.validate_ok hvalid).2
    obtain ⟨missing, hsorted, hmissing, hlists⟩ :=
      withRequired_lists (triggeredSlots_lists profile) config.requiredReviewerDomains
    have hgeneral := length_pos_of_mem (hlists.mem_iff.mpr (mem_append_left missing (mem_cons_self ..)))
    rw [length_map] at hgeneral
    dsimp only
    split_ifs with hlong
    · refine hlists.selected hsorted hmissing retainSlots_sublist retainSlots_required
        (retainSlots_optional ▸ take_prefix _ _) ?_ (by omega)
      have hsize := length_required hlists.distinct (hlists.required_mem hmissing)
      have hsmall : (ExtTreeSet.ofList config.requiredReviewerDomains compare).size ≤ _ :=
        ExtTreeSet.size_ofList_le
      -- the required candidates take their places, the optional ones all others
      have hparts := fun l : List ReviewerSlot =>
        length_eq_length_filter_add (l := l) (decide <| ·.domain ∈ config.requiredReviewerDomains)
      simp only [← decide_not] at hparts
      have hcandidates := hparts (withRequired config.requiredReviewerDomains (triggeredSlots profile))
      rw [hparts, retainSlots_required, retainSlots_optional, length_take]
      omega
    · exact hlists.selected hsorted hmissing (Sublist.refl _) rfl prefix_rfl (by omega) (by omega)

end
end Delivery

import Orchestraitor.Base.Layers
import Orchestraitor.Config.Schema

/-!
# Merging two configurations (`resolver.rs`)

Three combinators and one merge for each block.  A block that only one side has is adopted as a
whole; a block that both sides have is merged field by field, and a field that its merge function
does not name keeps the value of the lower side.
-/

namespace Config
open Base Std

/-! ## combinators -/

def mergeScalar {τ : Type} (current next : Option τ) : Option τ :=
  match next with
  | some value => some value
  | none => current

def mergeOption {τ : Type} (merge : τ → τ → τ) (current next : Option τ) : Option τ :=
  match current, next with
  | some currentValue, some nextValue => some (merge currentValue nextValue)
  | none, some nextValue => some nextValue
  | current, none => current

def mergeEntry {τ : Type} (merge : τ → τ → τ) (currentMap : OrdMap String τ)
    (entry : String × τ) : OrdMap String τ :=
  match currentMap[entry.1]? with
  | some currentValue => currentMap.insert entry.1 (merge currentValue entry.2)
  | none => currentMap.insert entry.1 entry.2

def mergeMap {τ : Type} (merge : τ → τ → τ) (current next : Option (OrdMap String τ)) :
    Option (OrdMap String τ) :=
  match next with
  | none => current
  | some nextMap => some (nextMap.toList.foldl (mergeEntry merge) (current.getD ∅))

/-! ## the blocks -/

def RoutingConfig.merge (current next : RoutingConfig) : RoutingConfig :=
  { current with
    provider := mergeScalar current.provider next.provider
    model := mergeScalar current.model next.model
    profile := mergeScalar current.profile next.profile }

def NormalizationConfig.merge (current next : NormalizationConfig) : NormalizationConfig :=
  { current with
    formatOnWrite := mergeScalar current.formatOnWrite next.formatOnWrite
    maxPasses := mergeScalar current.maxPasses next.maxPasses
    safeFixClassifications :=
      mergeScalar current.safeFixClassifications next.safeFixClassifications }

def SimplifyConfig.merge (current next : SimplifyConfig) : SimplifyConfig :=
  { current with
    enabled := mergeScalar current.enabled next.enabled
    autoApplyFormat := mergeScalar current.autoApplyFormat next.autoApplyFormat
    autoApplySafeFixes := mergeScalar current.autoApplySafeFixes next.autoApplySafeFixes
    maxPasses := mergeScalar current.maxPasses next.maxPasses
    maxFiles := mergeScalar current.maxFiles next.maxFiles
    pedantic := mergeScalar current.pedantic next.pedantic
    modelPass := mergeScalar current.modelPass next.modelPass }

def ProviderConfig.merge (current next : ProviderConfig) : ProviderConfig :=
  { current with
    protocol := mergeScalar current.protocol next.protocol
    endpoint := mergeScalar current.endpoint next.endpoint
    models := mergeScalar current.models next.models
    env := mergeScalar current.env next.env
    apiKey := mergeScalar current.apiKey next.apiKey }

def DomainConfig.merge (current next : DomainConfig) : DomainConfig :=
  { current with
    description := mergeScalar current.description next.description
    roles := mergeScalar current.roles next.roles
    routing := mergeOption RoutingConfig.merge current.routing next.routing }

def AgentsConfig.merge (current next : AgentsConfig) : AgentsConfig :=
  { current with domains := mergeMap DomainConfig.merge current.domains next.domains }

def RoleConfig.merge (current next : RoleConfig) : RoleConfig :=
  { current with routing := mergeOption RoutingConfig.merge current.routing next.routing }

def ToolBudgetConfig.merge (current next : ToolBudgetConfig) : ToolBudgetConfig :=
  { current with
    maxTurns := mergeScalar current.maxTurns next.maxTurns
    wallClockSecs := mergeScalar current.wallClockSecs next.wallClockSecs
    maxResultBytes := mergeScalar current.maxResultBytes next.maxResultBytes }

/-- `enabled` is not merged -/
def ToolConfig.merge (current next : ToolConfig) : ToolConfig :=
  { current with
    kind := mergeScalar current.kind next.kind
    command := mergeScalar current.command next.command
    subagentRole := mergeScalar current.subagentRole next.subagentRole
    internalTools := mergeScalar current.internalTools next.internalTools
    instructions := mergeScalar current.instructions next.instructions
    visibleTo := mergeScalar current.visibleTo next.visibleTo
    effort := mergeScalar current.effort next.effort
    maxSummaryBytes := mergeScalar current.maxSummaryBytes next.maxSummaryBytes
    structuredSummary := mergeScalar current.structuredSummary next.structuredSummary
    budget := mergeOption ToolBudgetConfig.merge current.budget next.budget }

def SubscriptionConfig.merge (current next : SubscriptionConfig) : SubscriptionConfig :=
  { current with
    provider := mergeScalar current.provider next.provider
    budget := mergeScalar current.budget next.budget }

def BudgetConfig.merge (current next : BudgetConfig) : BudgetConfig :=
  { current with
    tokenCap := mergeScalar current.tokenCap next.tokenCap
    costCap := mergeScalar current.costCap next.costCap }

def ResourceLimitConfig.merge (current next : ResourceLimitConfig) : ResourceLimitConfig :=
  { current with
    memoryBytes := mergeScalar current.memoryBytes next.memoryBytes
    cpuMs := mergeScalar current.cpuMs next.cpuMs
    outputBytes := mergeScalar current.outputBytes next.outputBytes }

def RetryConfig.merge (current next : RetryConfig) : RetryConfig :=
  { current with
    maxAttempts := mergeScalar current.maxAttempts next.maxAttempts
    backoffMs := mergeScalar current.backoffMs next.backoffMs }

def DataGovernanceConfig.merge (current next : DataGovernanceConfig) : DataGovernanceConfig :=
  { current with
    retention := mergeScalar current.retention next.retention
    provenance := mergeScalar current.provenance next.provenance }

def DataClassificationConfig.merge (current next : DataClassificationConfig) :
    DataClassificationConfig :=
  { current with
    label := mergeScalar current.label next.label
    exportable := mergeScalar current.exportable next.exportable }

def GitHubAppConfig.merge (current next : GitHubAppConfig) : GitHubAppConfig :=
  { current with
    enforcement := mergeScalar current.enforcement next.enforcement
    slug := mergeScalar current.slug next.slug
    clientId := mergeScalar current.clientId next.clientId
    installationId := mergeScalar current.installationId next.installationId
    privateKeyUri := mergeScalar current.privateKeyUri next.privateKeyUri }

def RoutingDecisionProviderConfig.merge (current next : RoutingDecisionProviderConfig) :
    RoutingDecisionProviderConfig :=
  { current with
    provider := mergeScalar current.provider next.provider
    baseUrl := mergeScalar current.baseUrl next.baseUrl
    model := mergeScalar current.model next.model
    apiKey := mergeScalar current.apiKey next.apiKey }

def LoopGuardrailsConfig.merge (current next : LoopGuardrailsConfig) : LoopGuardrailsConfig :=
  { current with
    noProgressTurns := mergeScalar current.noProgressTurns next.noProgressTurns
    toolRepeatCount := mergeScalar current.toolRepeatCount next.toolRepeatCount
    toolRepeatWindow := mergeScalar current.toolRepeatWindow next.toolRepeatWindow
    ciPollBudgetSecs := mergeScalar current.ciPollBudgetSecs next.ciPollBudgetSecs
    maxTaskAttempts := mergeScalar current.maxTaskAttempts next.maxTaskAttempts
    taskRetryBackoffSecs := mergeScalar current.taskRetryBackoffSecs next.taskRetryBackoffSecs
    maxTurnsPerAttempt := mergeScalar current.maxTurnsPerAttempt next.maxTurnsPerAttempt }

def WatchKickoffConfig.merge (current next : WatchKickoffConfig) : WatchKickoffConfig :=
  { current with
    newEligibleWork := mergeScalar current.newEligibleWork next.newEligibleWork
    unblockedPromotion := mergeScalar current.unblockedPromotion next.unblockedPromotion
    slotReleased := mergeScalar current.slotReleased next.slotReleased
    budgetWindowReset := mergeScalar current.budgetWindowReset next.budgetWindowReset
    externalEvent := mergeScalar current.externalEvent next.externalEvent }

/-- `ingress` and `intake` are not merged -/
def WatchConfigBlock.merge (current next : WatchConfigBlock) : WatchConfigBlock :=
  { current with
    pollIntervalSecs := mergeScalar current.pollIntervalSecs next.pollIntervalSecs
    kickoff := mergeOption WatchKickoffConfig.merge current.kickoff next.kickoff }

/-- `observability` is not merged -/
def OrchestraitorConfig.merge (current next : OrchestraitorConfig) : OrchestraitorConfig :=
  { current with
    normalization :=
      mergeOption NormalizationConfig.merge current.normalization next.normalization
    simplify := mergeOption SimplifyConfig.merge current.simplify next.simplify
    providers := mergeMap ProviderConfig.merge current.providers next.providers
    agents := mergeOption AgentsConfig.merge current.agents next.agents
    roles := mergeMap RoleConfig.merge current.roles next.roles
    tools := mergeMap ToolConfig.merge current.tools next.tools
    subscriptions := mergeMap SubscriptionConfig.merge current.subscriptions next.subscriptions
    budgets := mergeMap BudgetConfig.merge current.budgets next.budgets
    resourceLimits :=
      mergeMap ResourceLimitConfig.merge current.resourceLimits next.resourceLimits
    retry := mergeOption RetryConfig.merge current.retry next.retry
    dataGovernance :=
      mergeMap DataGovernanceConfig.merge current.dataGovernance next.dataGovernance
    dataClassification :=
      mergeMap DataClassificationConfig.merge current.dataClassification next.dataClassification
    githubApp := mergeOption GitHubAppConfig.merge current.githubApp next.githubApp
    routing := mergeOption RoutingDecisionProviderConfig.merge current.routing next.routing
    serviceIdentities := mergeScalar current.serviceIdentities next.serviceIdentities
    loop := mergeOption LoopGuardrailsConfig.merge current.loop next.loop
    watch := mergeOption WatchConfigBlock.merge current.watch next.watch }

/-! ## laws -/

theorem overrides_scalar {τ β : Type} (f : τ → β) :
    Overrides mergeScalar (fun o : Option τ => o.map f) := by
  intro a b
  cases b with
  | none | some => rfl

def entryOf {τ : Type} (id : String) (table : Option (OrdMap String τ)) : Option τ :=
  table.bind (fun m => m[id]?)

section
variable {τ β : Type} {merge : τ → τ → τ}

theorem mergeOption_none (current : Option τ) : mergeOption merge current none = current := by
  cases current with
  | none | some => rfl

theorem get_mergeEntry (m : OrdMap String τ) (e : String × τ) (id : String) :
    (mergeEntry merge m e)[id]? =
      if id = e.1 then mergeOption merge m[id]? (some e.2) else m[id]? := by
  unfold mergeEntry
  split <;> rename_i h
  · rw [OrdMap.get_insert]
    split_ifs with hid
    · rw [hid, h]
      rfl
    · rfl
  · rw [OrdMap.get_insert]
    split_ifs with hid
    · rw [hid, h]
      rfl
    · rfl

/-- keys of the incoming table are unique, so each entry is merged at most once -/
theorem get_mergeEntries (entries : List (String × τ)) (hnodup : (entries.map Prod.fst).Nodup)
    (m : OrdMap String τ) (id : String) : (entries.foldl (mergeEntry merge) m)[id]? =
      mergeOption merge m[id]? ((entries.find? (fun e => e.1 = id)).map Prod.snd) := by
  induction entries generalizing m with
  | nil => exact (mergeOption_none _).symm
  | cons e rest ih =>
    rw [List.map_cons, List.nodup_cons] at hnodup
    rw [List.foldl_cons, ih hnodup.2, get_mergeEntry]
    by_cases hid : id = e.1
    · have hnone : rest.find? (fun e => e.1 = id) = none := by
        rw [List.find?_eq_none]
        intro _ he' heq
        apply hnodup.1
        rw [← hid, ← of_decide_eq_true heq]
        exact List.mem_map_of_mem he'
      rw [if_pos hid, hnone, List.find?_cons_of_pos (by simp [hid])]
      exact mergeOption_none _
    · rw [if_neg hid, List.find?_cons_of_neg (by simpa using fun h => hid h.symm)]

theorem find_toList (m : OrdMap String τ) (id : String) :
    (m.toList.find? (fun e => e.1 = id)).map Prod.snd = m[id]? := by
  cases h : m.toList.find? (fun e => e.1 = id) with
  | some e =>
    have hid : e.1 = id := by simpa using List.find?_some h
    have hget := m.get_of_mem_toList (List.mem_of_find?_eq_some h)
    rw [← hid, hget]
    rfl
  | none =>
    symm
    rw [Option.map_none, Option.eq_none_iff_forall_ne_some]
    intro v hv
    have hmem := ExtTreeMap.mem_toList_iff_getElem?_eq_some.mpr hv
    exact List.find?_eq_none.mp h (id, v) hmem (by simp)

theorem get_mergeMap (current next : Option (OrdMap String τ)) (id : String) :
    entryOf id (mergeMap merge current next) =
      mergeOption merge (entryOf id current) (entryOf id next) := by
  cases next with
  | none => exact (mergeOption_none _).symm
  | some nextMap =>
    have hnodup : (nextMap.toList.map Prod.fst).Nodup := by
      rw [ExtTreeMap.map_fst_toList_eq_keys]
      exact nextMap.nodup_keys
    show (nextMap.toList.foldl (mergeEntry merge) (current.getD ∅))[id]? = _
    rw [get_mergeEntries _ hnodup, find_toList]
    cases current with
    | none =>
      show mergeOption merge (∅ : OrdMap String τ)[id]? nextMap[id]? = _
      rfl
    | some => rfl

variable (get : τ → Option β)

theorem overrides_option (h : Overrides merge get) :
    Overrides (mergeOption merge) (fun o => o.bind get) := by
  intro a b
  cases a with
  | none =>
    cases b with
    | none => rfl
    | some => exact (Option.or_none).symm
  | some u =>
    cases b with
    | none => rfl
    | some v => exact h u v

theorem overrides_table (h : Overrides merge get) (id : String) :
    Overrides (mergeMap merge) (fun m => (entryOf id m).bind get) := by
  intro a b
  show (entryOf id (mergeMap merge a b)).bind get = _
  rw [get_mergeMap]
  exact overrides_option get h _ _

theorem keepsFirst_option (h : ∀ a b, get (merge a b) = get a) :
    KeepsFirst (mergeOption merge) Option.isSome (fun o => o.bind get) := by
  refine ⟨fun a b => ?_, fun a b => ?_, fun a ha => ?_⟩
  · cases a <;> cases b <;> rfl
  · cases a with
    | none => cases b <;> rfl
    | some u =>
      cases b with
      | none => rfl
      | some v => exact h u v
  · cases a with
    | none => rfl
    | some => exact absurd rfl ha

theorem keepsFirst_table (h : ∀ a b, get (merge a b) = get a) (id : String) :
    KeepsFirst (mergeMap merge) (fun m => (entryOf id m).isSome)
      (fun m => (entryOf id m).bind get) := by
  have hopt := keepsFirst_option get h
  refine ⟨fun a b => ?_, fun a b => ?_, fun a ha => hopt.get_of_not _ ha⟩
  · rw [get_mergeMap]
    exact hopt.carries_merge _ _
  · rw [get_mergeMap]
    exact hopt.get_merge _ _

end
end Config

import Orchestraitor.Config.Merge

/-!
# Leaf keys

A leaf is a scalar or list key of the schema at any depth; the keys of a table are arguments.

* `Leaf.fate`            what a merge does to the leaf: override, keep the first carrier, or drop.
-/

namespace Config
open Base Std

inductive ConfigValue where
  | flag (value : Bool)
  | number (value : Nat)
  | text (value : String)
  | texts (value : List String)
  | secret (value : SecretUri)
  | secrets (value : List SecretUri)
  | enforcement (value : ServiceIdentityEnforcement)

/-! ## the leaves of each block -/

inductive NormalizationLeaf where
  | formatOnWrite | maxPasses | safeFixClassifications

def NormalizationLeaf.get : NormalizationLeaf → NormalizationConfig → Option ConfigValue
  | formatOnWrite, c => c.formatOnWrite.map .flag
  | maxPasses, c => c.maxPasses.map .number
  | safeFixClassifications, c => c.safeFixClassifications.map .texts

inductive SimplifyLeaf where
  | enabled | autoApplyFormat | autoApplySafeFixes | maxPasses | maxFiles | pedantic | modelPass

def SimplifyLeaf.get : SimplifyLeaf → SimplifyConfig → Option ConfigValue
  | enabled, c => c.enabled.map .flag
  | autoApplyFormat, c => c.autoApplyFormat.map .flag
  | autoApplySafeFixes, c => c.autoApplySafeFixes.map .flag
  | maxPasses, c => c.maxPasses.map .number
  | maxFiles, c => c.maxFiles.map .number
  | pedantic, c => c.pedantic.map .flag
  | modelPass, c => c.modelPass.map .flag

inductive ProviderLeaf where
  | protocol | endpoint | models | env | apiKey

def ProviderLeaf.get : ProviderLeaf → ProviderConfig → Option ConfigValue
  | protocol, c => c.protocol.map .text
  | endpoint, c => c.endpoint.map .text
  | models, c => c.models.map .texts
  | env, c => c.env.map .secrets
  | apiKey, c => c.apiKey.map .secret

inductive RoutingLeaf where
  | provider | model | profile

def RoutingLeaf.get : RoutingLeaf → RoutingConfig → Option ConfigValue
  | provider, c => c.provider.map .text
  | model, c => c.model.map .text
  | profile, c => c.profile.map .text

inductive DomainLeaf where
  | description | roles | routing (leaf : RoutingLeaf)

def DomainLeaf.get : DomainLeaf → DomainConfig → Option ConfigValue
  | description, c => c.description.map .text
  | roles, c => c.roles.map .texts
  | routing leaf, c => c.routing.bind leaf.get

inductive ToolBudgetLeaf where
  | maxTurns | wallClockSecs | maxResultBytes

def ToolBudgetLeaf.get : ToolBudgetLeaf → ToolBudgetConfig → Option ConfigValue
  | maxTurns, c => c.maxTurns.map .number
  | wallClockSecs, c => c.wallClockSecs.map .number
  | maxResultBytes, c => c.maxResultBytes.map .number

inductive ToolLeaf where
  | enabled | kind | command | subagentRole | internalTools | instructions | visibleTo | effort
  | maxSummaryBytes | structuredSummary | budget (leaf : ToolBudgetLeaf)

def ToolLeaf.get : ToolLeaf → ToolConfig → Option ConfigValue
  | enabled, c => c.enabled.map .flag
  | kind, c => c.kind.map .text
  | command, c => c.command.map .texts
  | subagentRole, c => c.subagentRole.map .text
  | internalTools, c => c.internalTools.map .texts
  | instructions, c => c.instructions.map .text
  | visibleTo, c => c.visibleTo.map .texts
  | effort, c => c.effort.map .text
  | maxSummaryBytes, c => c.maxSummaryBytes.map .number
  | structuredSummary, c => c.structuredSummary.map .flag
  | budget leaf, c => c.budget.bind leaf.get

inductive SubscriptionLeaf where
  | provider | budget

def SubscriptionLeaf.get : SubscriptionLeaf → SubscriptionConfig → Option ConfigValue
  | provider, c => c.provider.map .text
  | budget, c => c.budget.map .text

inductive BudgetLeaf where
  | tokenCap | costCap

def BudgetLeaf.get : BudgetLeaf → BudgetConfig → Option ConfigValue
  | tokenCap, c => c.tokenCap.map .number
  | costCap, c => c.costCap.map .number

inductive ResourceLimitLeaf where
  | memoryBytes | cpuMs | outputBytes

def ResourceLimitLeaf.get : ResourceLimitLeaf → ResourceLimitConfig → Option ConfigValue
  | memoryBytes, c => c.memoryBytes.map .number
  | cpuMs, c => c.cpuMs.map .number
  | outputBytes, c => c.outputBytes.map .number

inductive RetryLeaf where
  | maxAttempts | backoffMs

def RetryLeaf.get : RetryLeaf → RetryConfig → Option ConfigValue
  | maxAttempts, c => c.maxAttempts.map .number
  | backoffMs, c => c.backoffMs.map .number

inductive DataGovernanceLeaf where
  | retention | provenance

def DataGovernanceLeaf.get : DataGovernanceLeaf → DataGovernanceConfig → Option ConfigValue
  | retention, c => c.retention.map .text
  | provenance, c => c.provenance.map .text

inductive DataClassificationLeaf where
  | label | exportable

def DataClassificationLeaf.get :
    DataClassificationLeaf → DataClassificationConfig → Option ConfigValue
  | label, c => c.label.map .text
  | exportable, c => c.exportable.map .flag

inductive GitHubAppLeaf where
  | enforcement | slug | clientId | installationId | privateKeyUri

def GitHubAppLeaf.get : GitHubAppLeaf → GitHubAppConfig → Option ConfigValue
  | enforcement, c => c.enforcement.map .enforcement
  | slug, c => c.slug.map .text
  | clientId, c => c.clientId.map .text
  | installationId, c => c.installationId.map .number
  | privateKeyUri, c => c.privateKeyUri.map .secret

inductive RoutingDecisionLeaf where
  | provider | baseUrl | model | apiKey

def RoutingDecisionLeaf.get :
    RoutingDecisionLeaf → RoutingDecisionProviderConfig → Option ConfigValue
  | provider, c => c.provider.map .text
  | baseUrl, c => c.baseUrl.map .text
  | model, c => c.model.map .text
  | apiKey, c => c.apiKey.map .text

inductive LoopLeaf where
  | noProgressTurns | toolRepeatCount | toolRepeatWindow | ciPollBudgetSecs | maxTaskAttempts
  | taskRetryBackoffSecs | maxTurnsPerAttempt

def LoopLeaf.get : LoopLeaf → LoopGuardrailsConfig → Option ConfigValue
  | noProgressTurns, c => c.noProgressTurns.map .number
  | toolRepeatCount, c => c.toolRepeatCount.map .number
  | toolRepeatWindow, c => c.toolRepeatWindow.map .number
  | ciPollBudgetSecs, c => c.ciPollBudgetSecs.map .number
  | maxTaskAttempts, c => c.maxTaskAttempts.map .number
  | taskRetryBackoffSecs, c => c.taskRetryBackoffSecs.map .number
  | maxTurnsPerAttempt, c => c.maxTurnsPerAttempt.map .number

inductive KickoffLeaf where
  | newEligibleWork | unblockedPromotion | slotReleased | budgetWindowReset | externalEvent

def KickoffLeaf.get : KickoffLeaf → WatchKickoffConfig → Option ConfigValue
  | newEligibleWork, c => c.newEligibleWork.map .flag
  | unblockedPromotion, c => c.unblockedPromotion.map .flag
  | slotReleased, c => c.slotReleased.map .flag
  | budgetWindowReset, c => c.budgetWindowReset.map .flag
  | externalEvent, c => c.externalEvent.map .flag

inductive IngressLeaf where
  | enabled | queueCapacity

def IngressLeaf.get : IngressLeaf → WatchIngressConfig → Option ConfigValue
  | enabled, c => c.enabled.map .flag
  | queueCapacity, c => c.queueCapacity.map .number

inductive WatchLeaf where
  | pollIntervalSecs | kickoff (leaf : KickoffLeaf) | ingress (leaf : IngressLeaf) | intakeEnabled

def WatchLeaf.get : WatchLeaf → WatchConfigBlock → Option ConfigValue
  | pollIntervalSecs, c => c.pollIntervalSecs.map .number
  | kickoff leaf, c => c.kickoff.bind leaf.get
  | ingress leaf, c => c.ingress.bind leaf.get
  | intakeEnabled, c => c.intake.bind (fun intake => intake.enabled.map .flag)

/-! ## the leaves of the configuration -/

inductive Leaf where
  | normalization (leaf : NormalizationLeaf)
  | simplify (leaf : SimplifyLeaf)
  | provider (id : String) (leaf : ProviderLeaf)
  | domain (id : String) (leaf : DomainLeaf)
  | role (id : String) (leaf : RoutingLeaf)
  | tool (id : String) (leaf : ToolLeaf)
  | subscription (id : String) (leaf : SubscriptionLeaf)
  | budget (id : String) (leaf : BudgetLeaf)
  | resourceLimit (id : String) (leaf : ResourceLimitLeaf)
  | retry (leaf : RetryLeaf)
  | dataGovernance (id : String) (leaf : DataGovernanceLeaf)
  | dataClassification (id : String) (leaf : DataClassificationLeaf)
  | githubApp (leaf : GitHubAppLeaf)
  | routing (leaf : RoutingDecisionLeaf)
  | serviceIdentities
  | loop (leaf : LoopLeaf)
  | watch (leaf : WatchLeaf)
  | recordPayloads

def Leaf.get : Leaf → OrchestraitorConfig → Option ConfigValue
  | normalization leaf, c => c.normalization.bind leaf.get
  | simplify leaf, c => c.simplify.bind leaf.get
  | provider id leaf, c => (entryOf id c.providers).bind leaf.get
  | domain id leaf, c => c.agents.bind (fun agents => (entryOf id agents.domains).bind leaf.get)
  | role id leaf, c => (entryOf id c.roles).bind (fun role => role.routing.bind leaf.get)
  | tool id leaf, c => (entryOf id c.tools).bind leaf.get
  | subscription id leaf, c => (entryOf id c.subscriptions).bind leaf.get
  | budget id leaf, c => (entryOf id c.budgets).bind leaf.get
  | resourceLimit id leaf, c => (entryOf id c.resourceLimits).bind leaf.get
  | retry leaf, c => c.retry.bind leaf.get
  | dataGovernance id leaf, c => (entryOf id c.dataGovernance).bind leaf.get
  | dataClassification id leaf, c => (entryOf id c.dataClassification).bind leaf.get
  | githubApp leaf, c => c.githubApp.bind leaf.get
  | routing leaf, c => c.routing.bind leaf.get
  | serviceIdentities, c => c.serviceIdentities.map .texts
  | loop leaf, c => c.loop.bind leaf.get
  | watch leaf, c => c.watch.bind leaf.get
  | recordPayloads, c => c.observability.map (fun block => .flag block.recordPayloads)

/-! ## what a merge does to a leaf -/

/-- the blocks and entries with a field that their merge function does not name -/
inductive Carrier where
  | watch
  | tool (id : String)

def Carrier.present : Carrier → OrchestraitorConfig → Bool
  | watch, c => c.watch.isSome
  | tool id, c => (entryOf id c.tools).isSome

inductive Fate where
  | overrides
  | stays (carrier : Carrier)
  | dropped

def Leaf.fate : Leaf → Fate
  | watch (.ingress _) => .stays .watch
  | watch .intakeEnabled => .stays .watch
  | tool id .enabled => .stays (.tool id)
  | recordPayloads => .dropped
  | _ => .overrides

theorem routing_overrides (leaf : RoutingLeaf) : Overrides RoutingConfig.merge leaf.get := by
  intro a b
  cases leaf <;> exact overrides_scalar _ _ _

theorem domain_overrides (leaf : DomainLeaf) : Overrides DomainConfig.merge leaf.get := by
  intro a b
  cases leaf with
  | description | roles => exact overrides_scalar _ _ _
  | routing leaf => exact overrides_option leaf.get (routing_overrides leaf) _ _

theorem toolBudget_overrides (leaf : ToolBudgetLeaf) :
    Overrides ToolBudgetConfig.merge leaf.get := by
  intro a b
  cases leaf <;> exact overrides_scalar _ _ _

theorem tool_overrides (leaf : ToolLeaf) (h : leaf ≠ .enabled) :
    Overrides ToolConfig.merge leaf.get := by
  intro a b
  cases leaf with
  | enabled => exact absurd rfl h
  | budget leaf => exact overrides_option leaf.get (toolBudget_overrides leaf) _ _
  | _ => exact overrides_scalar _ _ _

theorem kickoff_overrides (leaf : KickoffLeaf) : Overrides WatchKickoffConfig.merge leaf.get := by
  intro a b
  cases leaf <;> exact overrides_scalar _ _ _

theorem merge_overrides {leaf : Leaf} (h : leaf.fate = .overrides) :
    Overrides OrchestraitorConfig.merge leaf.get := by
  intro a b
  cases leaf with
  | normalization leaf =>
    refine overrides_option leaf.get (fun a b => ?_) a.normalization b.normalization
    cases leaf <;> exact overrides_scalar _ _ _
  | simplify leaf =>
    refine overrides_option leaf.get (fun a b => ?_) a.simplify b.simplify
    cases leaf <;> exact overrides_scalar _ _ _
  | provider id leaf =>
    refine overrides_table leaf.get (fun a b => ?_) id a.providers b.providers
    cases leaf <;> exact overrides_scalar _ _ _
  | domain id leaf =>
    exact overrides_option (fun agents => (entryOf id agents.domains).bind leaf.get)
      (fun a b => overrides_table leaf.get (domain_overrides leaf) id a.domains b.domains) a.agents b.agents
  | role id leaf =>
    exact overrides_table (fun role => role.routing.bind leaf.get)
      (fun a b => overrides_option leaf.get (routing_overrides leaf) a.routing b.routing) id a.roles b.roles
  | tool id leaf =>
    refine overrides_table leaf.get (tool_overrides leaf ?_) id a.tools b.tools
    rintro rfl
    exact Fate.noConfusion h
  | subscription id leaf =>
    refine overrides_table leaf.get (fun a b => ?_) id a.subscriptions b.subscriptions
    cases leaf <;> exact overrides_scalar _ _ _
  | budget id leaf =>
    refine overrides_table leaf.get (fun a b => ?_) id a.budgets b.budgets
    cases leaf <;> exact overrides_scalar _ _ _
  | resourceLimit id leaf =>
    refine overrides_table leaf.get (fun a b => ?_) id a.resourceLimits b.resourceLimits
    cases leaf <;> exact overrides_scalar _ _ _
  | retry leaf =>
    refine overrides_option leaf.get (fun a b => ?_) a.retry b.retry
    cases leaf <;> exact overrides_scalar _ _ _
  | dataGovernance id leaf =>
    refine overrides_table leaf.get (fun a b => ?_) id a.dataGovernance b.dataGovernance
    cases leaf <;> exact overrides_scalar _ _ _
  | dataClassification id leaf =>
    refine overrides_table leaf.get (fun a b => ?_) id a.dataClassification
      b.dataClassification
    cases leaf <;> exact overrides_scalar _ _ _
  | githubApp leaf =>
    refine overrides_option leaf.get (fun a b => ?_) a.githubApp b.githubApp
    cases leaf <;> exact overrides_scalar _ _ _
  | routing leaf =>
    refine overrides_option leaf.get (fun a b => ?_) a.routing b.routing
    cases leaf <;> exact overrides_scalar _ _ _
  | serviceIdentities => exact overrides_scalar _ _ _
  | loop leaf =>
    refine overrides_option leaf.get (fun a b => ?_) a.loop b.loop
    cases leaf <;> exact overrides_scalar _ _ _
  | watch leaf =>
    refine overrides_option leaf.get (fun a b => ?_) a.watch b.watch
    cases leaf with
    | pollIntervalSecs => exact overrides_scalar _ _ _
    | kickoff leaf => exact overrides_option leaf.get (kickoff_overrides leaf) _ _
    | ingress | intakeEnabled => exact Fate.noConfusion h
  | recordPayloads => exact Fate.noConfusion h

theorem merge_keepsFirst {leaf : Leaf} {carrier : Carrier} (h : leaf.fate = .stays carrier) :
    KeepsFirst OrchestraitorConfig.merge carrier.present leaf.get := by
  have hwatch : ∀ leaf : WatchLeaf, (∀ a b, leaf.get (WatchConfigBlock.merge a b) = leaf.get a) →
      KeepsFirst OrchestraitorConfig.merge (Carrier.present .watch) (Leaf.get (.watch leaf)) := by
    intro leaf hleaf
    have hk := keepsFirst_option leaf.get hleaf
    exact ⟨fun a b => hk.carries_merge a.watch b.watch, fun a b => hk.get_merge a.watch b.watch,
      fun a => hk.get_of_not a.watch⟩
  unfold Leaf.fate at h
  split at h
  · obtain rfl := Fate.stays.inj h
    exact hwatch _ (fun _ _ => rfl)
  · obtain rfl := Fate.stays.inj h
    exact hwatch _ (fun _ _ => rfl)
  · obtain rfl := Fate.stays.inj h
    rename_i id
    have hleaf : ∀ a b, ToolLeaf.get .enabled (ToolConfig.merge a b) = ToolLeaf.get .enabled a :=
      fun _ _ => rfl
    have hk := keepsFirst_table (ToolLeaf.get .enabled) hleaf id
    exact ⟨fun a b => hk.carries_merge a.tools b.tools, fun a b => hk.get_merge a.tools b.tools,
      fun a => hk.get_of_not a.tools⟩
  · exact Fate.noConfusion h
  · exact Fate.noConfusion h

theorem merge_dropped {leaf : Leaf} (h : leaf.fate = .dropped) (a b : OrchestraitorConfig) :
    leaf.get (a.merge b) = leaf.get a := by
  unfold Leaf.fate at h
  split at h
  · exact Fate.noConfusion h
  · exact Fate.noConfusion h
  · exact Fate.noConfusion h
  · rfl
  · exact Fate.noConfusion h

theorem get_default (leaf : Leaf) : leaf.get {} = none := by
  cases leaf <;> rfl

end Config

import Orchestraitor.Base.Ordered

/-!
# The configuration schema (`schema.rs`)

Every block of the layered configuration with every field.  A table keyed by an identifier is an
ordered map; an absent key is `none`.  The one exception is `observability.record_payloads`, which
is a plain flag of an optional block.
-/

namespace Config
open Base

inductive SecretStore where
  | keyring | env

structure SecretUri where
  store : SecretStore
  id : String

inductive ServiceIdentityEnforcement where
  | recommended | required

structure NormalizationConfig where
  formatOnWrite : Option Bool := none
  maxPasses : Option Nat := none
  safeFixClassifications : Option (List String) := none

structure SimplifyConfig where
  enabled : Option Bool := none
  autoApplyFormat : Option Bool := none
  autoApplySafeFixes : Option Bool := none
  maxPasses : Option Nat := none
  maxFiles : Option Nat := none
  pedantic : Option Bool := none
  modelPass : Option Bool := none

structure ProviderConfig where
  protocol : Option String := none
  endpoint : Option String := none
  models : Option (List String) := none
  env : Option (List SecretUri) := none
  apiKey : Option SecretUri := none

structure RoutingConfig where
  provider : Option String := none
  model : Option String := none
  profile : Option String := none

structure DomainConfig where
  description : Option String := none
  roles : Option (List String) := none
  routing : Option RoutingConfig := none

structure AgentsConfig where
  domains : Option (OrdMap String DomainConfig) := none

structure RoleConfig where
  routing : Option RoutingConfig := none

structure ToolBudgetConfig where
  maxTurns : Option Nat := none
  wallClockSecs : Option Nat := none
  maxResultBytes : Option Nat := none

structure ToolConfig where
  enabled : Option Bool := none
  kind : Option String := none
  command : Option (List String) := none
  subagentRole : Option String := none
  internalTools : Option (List String) := none
  instructions : Option String := none
  visibleTo : Option (List String) := none
  budget : Option ToolBudgetConfig := none
  effort : Option String := none
  maxSummaryBytes : Option Nat := none
  structuredSummary : Option Bool := none

structure SubscriptionConfig where
  provider : Option String := none
  budget : Option String := none

structure BudgetConfig where
  tokenCap : Option Nat := none
  costCap : Option Nat := none

structure ResourceLimitConfig where
  memoryBytes : Option Nat := none
  cpuMs : Option Nat := none
  outputBytes : Option Nat := none

structure RetryConfig where
  maxAttempts : Option Nat := none
  backoffMs : Option Nat := none

structure DataGovernanceConfig where
  retention : Option String := none
  provenance : Option String := none

structure DataClassificationConfig where
  label : Option String := none
  exportable : Option Bool := none

structure GitHubAppConfig where
  enforcement : Option ServiceIdentityEnforcement := none
  slug : Option String := none
  clientId : Option String := none
  installationId : Option Nat := none
  privateKeyUri : Option SecretUri := none

structure RoutingDecisionProviderConfig where
  provider : Option String := none
  baseUrl : Option String := none
  model : Option String := none
  apiKey : Option String := none

structure LoopGuardrailsConfig where
  noProgressTurns : Option Nat := none
  toolRepeatCount : Option Nat := none
  toolRepeatWindow : Option Nat := none
  ciPollBudgetSecs : Option Nat := none
  maxTaskAttempts : Option Nat := none
  taskRetryBackoffSecs : Option Nat := none
  maxTurnsPerAttempt : Option Nat := none

structure WatchKickoffConfig where
  newEligibleWork : Option Bool := none
  unblockedPromotion : Option Bool := none
  slotReleased : Option Bool := none
  budgetWindowReset : Option Bool := none
  externalEvent : Option Bool := none

structure WatchIngressConfig where
  enabled : Option Bool := none
  queueCapacity : Option Nat := none

structure WatchIntakeConfig where
  enabled : Option Bool := none

structure WatchConfigBlock where
  pollIntervalSecs : Option Nat := none
  kickoff : Option WatchKickoffConfig := none
  ingress : Option WatchIngressConfig := none
  intake : Option WatchIntakeConfig := none

structure ObservabilityConfig where
  recordPayloads : Bool := false

structure OrchestraitorConfig where
  normalization : Option NormalizationConfig := none
  simplify : Option SimplifyConfig := none
  providers : Option (OrdMap String ProviderConfig) := none
  agents : Option AgentsConfig := none
  roles : Option (OrdMap String RoleConfig) := none
  tools : Option (OrdMap String ToolConfig) := none
  subscriptions : Option (OrdMap String SubscriptionConfig) := none
  budgets : Option (OrdMap String BudgetConfig) := none
  resourceLimits : Option (OrdMap String ResourceLimitConfig) := none
  retry : Option RetryConfig := none
  dataGovernance : Option (OrdMap String DataGovernanceConfig) := none
  dataClassification : Option (OrdMap String DataClassificationConfig) := none
  githubApp : Option GitHubAppConfig := none
  routing : Option RoutingDecisionProviderConfig := none
  serviceIdentities : Option (List String) := none
  loop : Option LoopGuardrailsConfig := none
  watch : Option WatchConfigBlock := none
  observability : Option ObservabilityConfig := none

/-! ## layers -/

inductive ConfigLayer where
  | builtInDefaults | pluginDefaults | globalUser | organizationTeam
  | project | directoryDomain | taskAgent | cliFlag
  deriving DecidableEq

namespace ConfigLayer

def rank : ConfigLayer → Nat
  | builtInDefaults => 0
  | pluginDefaults => 1
  | globalUser => 2
  | organizationTeam => 3
  | project => 4
  | directoryDomain => 5
  | taskAgent => 6
  | cliFlag => 7

theorem rank_injective : Function.Injective rank := by
  intro a b h
  cases a <;> cases b <;> first | rfl | exact absurd h (by decide)

instance : LinearOrder ConfigLayer := LinearOrder.lift' rank rank_injective

def all : List ConfigLayer :=
  [builtInDefaults, pluginDefaults, globalUser, organizationTeam,
    project, directoryDomain, taskAgent, cliFlag]

theorem mem_all (layer : ConfigLayer) : layer ∈ all := by
  cases layer <;> decide

end ConfigLayer

structure ConfigSource where
  layer : ConfigLayer
  name : String

structure ResolvedValue (τ : Type) where
  value : τ
  source : ConfigSource
  inherited : Bool

end Config

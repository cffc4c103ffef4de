import Orchestraitor.Config.Resolver

/-!
# The declared-tool registry (`tool.rs`, `tool_id.rs`)

Configuration turned into typed tool definitions.  Each tool id is checked against the layer that
supplies it before the merged definition is resolved; the first failure ends the build.
-/

namespace Tool
open Base Config Std

/-! ## tool ids -/

def maxToolIdChars : Nat := 64

variable (toolId : String)

def isValidToolId : Bool :=
  let len := toolId.toList.length
  if len = 0 ∨ len > maxToolIdChars then false
  else match toolId.toList with
    | [] => false
    | first :: rest =>
      (first.isLower || first.isDigit) &&
        rest.all (fun c => c.isLower || c.isDigit || c == '-' || c == '_')

def isReservedToolId : Bool :=
  toolId ∈ ["read_file", "write_file", "search", "bash", "finish", "think"] ||
    toolId ∈ ["board.query", "board.move", "decision.record", "router.consult",
      "worker.delegate", "budget.check", "capability.check"]

/-! ## resolved tools -/

inductive ToolRegistryError where
  | untrustedLayer (toolId layer : String)
  | unknownKind (toolId kind : String)
  | malformedMechanism (toolId reason : String)
  | unknownSubagentRole (toolId role known : String)
  | unknownVisibleRole (toolId role known : String)
  | unknownInternalTool (toolId name : String)
  | unknownEffort (toolId effort : String)
  | invalidToolId (toolId : String)
  | config (err : ConfigError)

inductive ResolvedInternalTool where
  | readFile | search | bash | think

namespace ResolvedInternalTool

def rank : ResolvedInternalTool → Nat
  | readFile => 0
  | search => 1
  | bash => 2
  | think => 3

theorem rank_injective : Function.Injective rank := by
  intro a b h
  cases a <;> cases b <;> first | rfl | exact absurd h (by decide)

instance : LinearOrder ResolvedInternalTool := LinearOrder.lift' rank rank_injective

def parse (toolId name : String) : Except ToolRegistryError ResolvedInternalTool :=
  match name with
  | "read_file" => .ok readFile
  | "search" => .ok search
  | "bash" => .ok bash
  | "think" => .ok think
  | other => .error (.unknownInternalTool toolId other)

end ResolvedInternalTool

inductive ResolvedEffort where
  | low | medium | high

def ResolvedEffort.parse (effort : String) : Except ToolRegistryError ResolvedEffort :=
  match effort with
  | "low" => .ok low
  | "medium" => .ok medium
  | "high" => .ok high
  | other => .error (.unknownEffort toolId other)

inductive ResolvedToolMechanism where
  | command (argv : List String)
  | subagent (role : String) (internalTools : OrdSet ResolvedInternalTool)
      (instructions : Option String)
  | thinkSwitch (enabled : Bool)

structure ResolvedTool where
  id : String
  mechanism : ResolvedToolMechanism
  maxTurns : Option Nat
  wallClockSecs : Option Nat
  maxResultBytes : Option Nat
  visibleTo : OrdSet String
  effort : Option ResolvedEffort
  maxSummaryBytes : Option Nat
  structuredSummary : Option Bool
  layer : ConfigLayer

/-! ## resolving one entry -/

def resolveThinkKillSwitch (tool : ToolConfig) (layer : ConfigLayer) :
    Except ToolRegistryError ResolvedTool :=
  let configured := [tool.kind.isSome, tool.command.isSome, tool.subagentRole.isSome,
    tool.internalTools.isSome, tool.instructions.isSome, tool.visibleTo.isSome,
    tool.budget.isSome, tool.effort.isSome, tool.maxSummaryBytes.isSome,
    tool.structuredSummary.isSome].any (fun present => present)
  if configured then
    .error (.malformedMechanism "think"
      "the built-in `think` tool carries no configuration beyond `enabled = false`")
  else
    .ok { id := "think", mechanism := .thinkSwitch (tool.enabled.getD true), maxTurns := none,
          wallClockSecs := none, maxResultBytes := none, visibleTo := ∅, effort := none,
          maxSummaryBytes := none, structuredSummary := none, layer := layer }

def resolveCommandMechanism (tool : ToolConfig) :
    Except ToolRegistryError ResolvedToolMechanism :=
  if tool.subagentRole.isSome || tool.internalTools.isSome || tool.instructions.isSome ||
      tool.structuredSummary.isSome || tool.effort.isSome || tool.maxSummaryBytes.isSome then
    .error (.malformedMechanism toolId "a `command` tool carries subagent-only fields")
  else match tool.command with
    | none =>
      .error (.malformedMechanism toolId "`command` tool is missing its `command` argv")
    | some argv =>
      if argv.isEmpty || argv.any String.isEmpty then
        .error (.malformedMechanism toolId
          "`command` argv must be non-empty with no empty entries")
      else .ok (.command argv)

def parseInternalTools (toolId : String) :
    List String → OrdSet ResolvedInternalTool →
      Except ToolRegistryError (OrdSet ResolvedInternalTool)
  | [], internalTools => .ok internalTools
  | name :: rest, internalTools =>
    match ResolvedInternalTool.parse toolId name with
    | .error err => .error err
    | .ok tool => parseInternalTools toolId rest (internalTools.insert tool)

def resolveSubagentMechanism (tool : ToolConfig) (roleIds : List String) (subagentWired : Bool) :
    Except ToolRegistryError ResolvedToolMechanism :=
  if !subagentWired then
    .error (.malformedMechanism toolId "the subagent mechanism is not wired in this runtime")
  else if tool.command.isSome then
    .error (.malformedMechanism toolId "a `subagent` tool carries a `command` argv")
  else match tool.subagentRole with
    | none => .error (.malformedMechanism toolId "`subagent` tool is missing `subagent_role`")
    | some role =>
      if role ∉ roleIds then
        .error (.unknownSubagentRole toolId role (String.intercalate ", " roleIds))
      else match parseInternalTools toolId (tool.internalTools.getD []) ∅ with
        | .error err => .error err
        | .ok internalTools =>
          -- an absent or empty allowlist means the two read-only tools
          let internalTools :=
            if internalTools.isEmpty then (internalTools.insert .readFile).insert .search
            else internalTools
          .ok (.subagent role internalTools tool.instructions)

def resolveMechanism (tool : ToolConfig) (kind : String) (roleIds : List String)
    (subagentWired : Bool) :
    Except ToolRegistryError ResolvedToolMechanism :=
  match kind with
  | "command" => resolveCommandMechanism toolId tool
  | "subagent" => resolveSubagentMechanism toolId tool roleIds subagentWired
  | other => .error (.unknownKind toolId other)

def collectVisible (toolId : String) (roleIds : List String) :
    List String → OrdSet String → Except ToolRegistryError (OrdSet String)
  | [], visibleTo => .ok visibleTo
  | role :: rest, visibleTo =>
    if role ∉ roleIds then
      .error (.unknownVisibleRole toolId role (String.intercalate ", " roleIds))
    else collectVisible toolId roleIds rest (visibleTo.insert role)

def resolveVisibleTo (tool : ToolConfig) (roleIds : List String) :
    Except ToolRegistryError (OrdSet String) :=
  collectVisible toolId roleIds (tool.visibleTo.getD []) ∅

def validateBudget (tool : ToolConfig) : Except ToolRegistryError Unit :=
  if tool.maxSummaryBytes = some 0 then
    .error (.malformedMechanism toolId "max_summary_bytes of 0 would disable the tool")
  else match tool.budget with
    | none => .ok ()
    | some budget =>
      if budget.maxTurns = some 0 then
        .error (.malformedMechanism toolId "budget.max_turns of 0 would disable the tool")
      else if budget.maxResultBytes = some 0 then
        .error (.malformedMechanism toolId "budget.max_result_bytes of 0 would disable the tool")
      else if budget.wallClockSecs = some 0 then
        .error (.malformedMechanism toolId "budget.wall_clock_secs of 0 would disable the tool")
      else .ok ()

def resolveEffort (effort : Option String) :
    Except ToolRegistryError (Option ResolvedEffort) :=
  match effort with
  | none => .ok none
  | some effort => (ResolvedEffort.parse toolId effort).map some

def resolveTool (tool : ToolConfig) (roleIds : List String) (subagentWired : Bool)
    (layer : ConfigLayer) : Except ToolRegistryError ResolvedTool := do
  if !isValidToolId toolId || (isReservedToolId toolId && toolId != "think") then
    .error (.invalidToolId toolId)
  else if toolId = "think" then resolveThinkKillSwitch tool layer
  else if tool.enabled.isSome then
    .error (.malformedMechanism toolId "only the built-in `think` tool carries `enabled`")
  else match tool.kind with
    | none => .error (.malformedMechanism toolId "missing `kind`")
    | some kind =>
      let mechanism ← resolveMechanism toolId tool kind roleIds subagentWired
      let effort ← resolveEffort toolId tool.effort
      let visibleTo ← resolveVisibleTo toolId tool roleIds
      validateBudget toolId tool
      return {
        id := toolId
        mechanism := mechanism
        maxTurns := tool.budget.bind ToolBudgetConfig.maxTurns
        wallClockSecs := tool.budget.bind ToolBudgetConfig.wallClockSecs
        maxResultBytes := tool.budget.bind ToolBudgetConfig.maxResultBytes
        visibleTo := visibleTo
        effort := effort
        maxSummaryBytes := tool.maxSummaryBytes
        structuredSummary := tool.structuredSummary
        layer := layer }

/-! ## the registry -/

def trustedToolLayers : List ConfigLayer :=
  [.builtInDefaults, .pluginDefaults, .globalUser, .organizationTeam]

def layerName : ConfigLayer → String
  | .builtInDefaults => "built-in-defaults"
  | .pluginDefaults => "plugin-defaults"
  | .globalUser => "user"
  | .organizationTeam => "org"
  | .project => "project"
  | .directoryDomain => "dir"
  | .taskAgent => "task-agent"
  | .cliFlag => "cli-flag"

structure ToolRegistry where
  tools : OrdMap String ResolvedTool := ∅

def registerTools (inputs : List ConfigInput) (defined : OrdMap String ToolConfig)
    (roleIds : List String) (subagentWired : Bool) :
    List String → OrdMap String ResolvedTool →
      Except ToolRegistryError (OrdMap String ResolvedTool)
  | [], tools => .ok tools
  | toolId :: rest, tools =>
    match supplyingLayerForEntry inputs "tools" toolId with
    | none => registerTools inputs defined roleIds subagentWired rest tools
    | some winning =>
      if winning.layer ∉ trustedToolLayers then
        .error (.untrustedLayer toolId (layerName winning.layer))
      else match defined[toolId]? with
        | none => registerTools inputs defined roleIds subagentWired rest tools
        | some toolConfig =>
          match resolveTool toolId toolConfig roleIds subagentWired winning.layer with
          | .error err => .error err
          | .ok tool =>
            registerTools inputs defined roleIds subagentWired rest (tools.insert toolId tool)

def fromResolver (inputs : List ConfigInput) (roleIds : List String) (subagentWired : Bool) :
    Except ToolRegistryError ToolRegistry :=
  match resolveConfig inputs with
  | .error err => .error (.config err)
  | .ok merged =>
    match merged.tools with
    | none => .ok {}
    | some defined =>
      (registerTools inputs defined roleIds subagentWired defined.keys ∅).map ToolRegistry.mk

def ToolRegistry.thinkEnabled (registry : ToolRegistry) : Bool :=
  match registry.tools["think"]? with
  | none => true
  | some tool =>
    match tool.mechanism with
    | .thinkSwitch enabled => enabled
    | _ => true

end Tool

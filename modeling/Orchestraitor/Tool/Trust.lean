import Orchestraitor.Base.Prim
import Orchestraitor.Tool.Registry

/-!
# The layer-trust gate

The gate looks at the highest layer that carries an entry, the definition is the merge of all
layers.  The trust line is a line of the precedence order: what lies above an untrusted layer is
untrusted, so an untrusted carrier always shows at the gate, and a registry that was built saw
none.
-/

namespace Tool
open Base Config Std List ConfigInput

def trustedLayer (layer : ConfigLayer) : Bool := layer ∈ trustedToolLayers

theorem untrusted_upward {layer layer' : ConfigLayer} (hle : layer ≤ layer')
    (h : layer ∉ trustedToolLayers) : layer' ∉ trustedToolLayers := by
  revert hle h
  cases layer <;> cases layer' <;> decide

def toolEntry (id : String) (input : ConfigInput) : Option ToolConfig :=
  entryOf id input.config.tools

/-! ## an untrusted entry fails the build -/

variable {inputs : List ConfigInput} {input : ConfigInput} {roleIds : List String}
  {subagentWired : Bool}

theorem defined_of_carried {id : String} (hin : input ∈ inputs)
    (h : (toolEntry id input).isSome = true) :
    (entryOf id (mergedOf inputs).tools).isSome = true := by
  have hk : KeepsFirst OrchestraitorConfig.merge (Carrier.present (.tool id))
      (Leaf.get (.tool id .enabled)) := merge_keepsFirst rfl
  show (Carrier.tool id).present (mergedOf inputs) = true
  rw [mergedOf, hk.carries_foldl, Bool.or_eq_true]
  refine Or.inr (any_eq_true.mpr ⟨input.config, ?_, h⟩)
  exact mem_map_of_mem ((mem_sortByKey layer).mpr hin)

theorem supplyingLayer_of_carried {id : String} (hin : input ∈ inputs)
    (h : (toolEntry id input).isSome = true) :
    ∃ winning, supplyingLayerForEntry inputs "tools" id = some winning ∧
      input.layer ≤ winning.layer := by
  unfold supplyingLayerForEntry
  dsimp only
  cases hfind : (sortByKey layer inputs).reverse.find?
      (fun input => containsEntry "tools" id input.config) with
  | none =>
    have hmem := mem_reverse.mpr ((mem_sortByKey layer).mpr hin)
    exact absurd h (find?_eq_none.mp hfind input hmem)
  | some winner =>
    exact ⟨winner.source, rfl, (highest_of_find_reverse hfind).2.2 input hin h⟩

theorem registerTools_ok_trusted {defined : OrdMap String ToolConfig} {ids : List String}
    {tools tools' : OrdMap String ResolvedTool}
    (h : registerTools inputs defined roleIds subagentWired ids tools = .ok tools') :
    ∀ id ∈ ids, ∀ winning, supplyingLayerForEntry inputs "tools" id = some winning →
      winning.layer ∈ trustedToolLayers := by
  induction ids generalizing tools with
  | nil => exact fun id hid => absurd hid not_mem_nil
  | cons toolId rest ih =>
    rw [registerTools] at h
    intro id hid winning hwin
    cases hsup : supplyingLayerForEntry inputs "tools" toolId with
    | none =>
      rw [hsup] at h
      rcases mem_cons.mp hid with rfl | hid
      · rw [hsup] at hwin
        exact absurd hwin (by simp)
      · exact ih h id hid winning hwin
    | some first =>
      rw [hsup] at h
      dsimp only at h
      by_cases htrust : first.layer ∈ trustedToolLayers
      · rw [if_neg (not_not_intro htrust)] at h
        rcases mem_cons.mp hid with rfl | hid
        · rw [hsup] at hwin
          exact Option.some.inj hwin ▸ htrust
        · -- the rest of the loop, whether or not this id was registered
          split at h
          · exact ih h id hid winning hwin
          · split at h
            · exact absurd h (by simp)
            · exact ih h id hid winning hwin
      · rw [if_pos htrust] at h
        exact absurd h (by simp)

def definedTools (inputs : List ConfigInput) : OrdMap String ToolConfig :=
  (mergedOf inputs).tools.getD ∅

theorem get_definedTools (inputs : List ConfigInput) (id : String) :
    (definedTools inputs)[id]? = entryOf id (mergedOf inputs).tools := by
  unfold definedTools entryOf
  cases (mergedOf inputs).tools with
  | none => exact ExtTreeMap.getElem?_empty
  | some => rfl

theorem map_mk_ok_iff (result : Except ToolRegistryError (OrdMap String ResolvedTool))
    (registry : ToolRegistry) :
    result.map ToolRegistry.mk = .ok registry ↔ result = .ok registry.tools := by
  cases result with
  | error => simp [Except.map]
  | ok =>
    constructor
    · intro h
      rw [← Except.ok.inj h]
    · intro h
      rw [Except.ok.inj h]
      rfl

theorem fromResolver_ok_iff {registry : ToolRegistry} :
    fromResolver inputs roleIds subagentWired = .ok registry ↔
      rejectAllAmbiguousConflicts inputs = .ok () ∧
        registerTools inputs (definedTools inputs) roleIds subagentWired
          (definedTools inputs).keys ∅ = .ok registry.tools := by
  unfold fromResolver definedTools
  cases hr : resolveConfig inputs with
  | error =>
    refine iff_of_false (by simp) (fun h => ?_)
    rw [(resolveConfig_ok_iff inputs _).mpr ⟨h.1, rfl⟩] at hr
    exact absurd hr (by simp)
  | ok merged =>
    obtain ⟨haccepted, rfl⟩ := (resolveConfig_ok_iff inputs merged).mp hr
    dsimp only
    cases (mergedOf inputs).tools with
    | none =>
      show (.ok ∅ : Except ToolRegistryError (OrdMap String ResolvedTool)).map ToolRegistry.mk =
        .ok registry ↔ _
      rw [map_mk_ok_iff]
      exact (and_iff_right haccepted).symm
    | some =>
      rw [map_mk_ok_iff]
      exact (and_iff_right haccepted).symm

theorem fromResolver_ok_trusted {registry : ToolRegistry}
    (h : fromResolver inputs roleIds subagentWired = .ok registry) (hin : input ∈ inputs)
    (hlayer : input.layer ∉ trustedToolLayers) (id : String) : toolEntry id input = none := by
  by_contra hne
  have hsome : (toolEntry id input).isSome = true := Option.isSome_iff_ne_none.mpr hne
  have hid : id ∈ (definedTools inputs).keys := by
    rw [ExtTreeMap.mem_keys, ExtTreeMap.mem_iff_isSome_getElem?, get_definedTools]
    exact defined_of_carried hin hsome
  obtain ⟨winning, hwin, hle⟩ := supplyingLayer_of_carried hin hsome
  have htrusted := registerTools_ok_trusted (fromResolver_ok_iff.mp h).2 id hid winning hwin
  exact untrusted_upward hle hlayer htrusted

/-! ## what the build reads is a function of the trusted inputs -/

def trustedSorted (inputs : List ConfigInput) : List ConfigInput :=
  (sortByKey ConfigInput.layer inputs).filter (fun input => trustedLayer input.layer)

def SameTrusted (inputs inputs' : List ConfigInput) : Prop :=
  ∀ layer ∈ trustedToolLayers, inputs.filter (fun input => input.layer = layer) =
    inputs'.filter (fun input => input.layer = layer)

theorem trustedSorted_congr {inputs' : List ConfigInput} (h : SameTrusted inputs inputs') :
    trustedSorted inputs = trustedSorted inputs' := by
  apply filter_sortByKey_congr
  intro layer hlayer
  convert h layer (of_decide_eq_true hlayer)

section
variable {inputs : List ConfigInput}
  (hnone : ∀ input ∈ inputs, input.layer ∉ trustedToolLayers → ∀ id, toolEntry id input = none)

include hnone

theorem entryOf_mergedOf_trusted (id : String) :
    entryOf id (mergedOf inputs).tools = (trustedSorted inputs).foldl
      (fun entry input => mergeOption ToolConfig.merge entry (toolEntry id input)) none := by
  have hhom : ∀ (configs : List OrchestraitorConfig) (init : OrchestraitorConfig),
      entryOf id (configs.foldl OrchestraitorConfig.merge init).tools = configs.foldl
        (fun entry config => mergeOption ToolConfig.merge entry (entryOf id config.tools))
        (entryOf id init.tools) := by
    intro configs
    induction configs with
    | nil => exact fun init => rfl
    | cons config _ ih =>
      intro init
      rw [foldl_cons, ih, foldl_cons]
      congr 1
      exact get_mergeMap init.tools config.tools id
  rw [mergedOf, hhom, foldl_map, trustedSorted, foldl_filter]
  apply foldl_ext
  intro entry input hin
  by_cases htrust : trustedLayer input.layer = true
  · rw [if_pos htrust]
    rfl
  · rw [if_neg htrust]
    have hempty := hnone input ((mem_sortByKey layer).mp hin)
      (by simpa [trustedLayer] using htrust) id
    show mergeOption ToolConfig.merge entry (toolEntry id input) = entry
    rw [hempty, mergeOption_none]

theorem supplyingLayer_trusted (id : String) : supplyingLayerForEntry inputs "tools" id =
      ((trustedSorted inputs).reverse.find? (fun input => (toolEntry id input).isSome)).map
        ConfigInput.source := by
  unfold supplyingLayerForEntry trustedSorted
  dsimp only
  rw [← filter_reverse, find?_filter]
  congr 1
  apply find?_congr
  intro input hin
  show (toolEntry id input).isSome = _
  by_cases htrust : trustedLayer input.layer = true
  · simp [htrust]
  · have hmem := (mem_sortByKey layer).mp (mem_reverse.mp hin)
    have hempty := hnone input hmem (by simpa [trustedLayer] using htrust) id
    simp [hempty]

end

theorem registerTools_congr {inputs' : List ConfigInput} (h : ∀ id, supplyingLayerForEntry inputs
      "tools" id = supplyingLayerForEntry inputs' "tools" id) (defined : OrdMap String ToolConfig)
    (roleIds : List String) (subagentWired : Bool) (ids : List String)
    (tools : OrdMap String ResolvedTool) :
    registerTools inputs defined roleIds subagentWired ids tools =
      registerTools inputs' defined roleIds subagentWired ids tools := by
  induction ids generalizing tools with
  | nil => rfl
  | cons id _ ih =>
    rw [registerTools, registerTools, h id]
    simp only [ih]

/-- inputs that agree in the trusted layers build the same registry whenever both build one, and
an entry in an untrusted layer stops the build -/
theorem untrusted_layers_powerless (roleIds : List String) (subagentWired : Bool)
    (inputs inputs' : List ConfigInput) (hsame : SameTrusted inputs inputs') :
    (∀ registry registry', fromResolver inputs roleIds subagentWired = .ok registry →
      fromResolver inputs' roleIds subagentWired = .ok registry' →
        registry = registry' ∧ registry.thinkEnabled = registry'.thinkEnabled) ∧
    (∀ input ∈ inputs, input.layer ∉ trustedToolLayers →
      ∀ id tool, entryOf id input.config.tools = some tool →
        ∃ err, fromResolver inputs roleIds subagentWired = .error err) := by
  constructor
  · intro registry registry' hok hok'
    have hnone : ∀ input ∈ inputs, input.layer ∉ trustedToolLayers →
        ∀ id, toolEntry id input = none := fun _ hin => fromResolver_ok_trusted hok hin
    have hnone' : ∀ input ∈ inputs', input.layer ∉ trustedToolLayers →
        ∀ id, toolEntry id input = none := fun _ hin => fromResolver_ok_trusted hok' hin
    have hdefined : definedTools inputs = definedTools inputs' := by
      apply ExtTreeMap.ext_getElem?
      intro _
      rw [get_definedTools, get_definedTools, entryOf_mergedOf_trusted hnone,
        entryOf_mergedOf_trusted hnone', trustedSorted_congr hsame]
    have hsup : ∀ id, supplyingLayerForEntry inputs "tools" id =
        supplyingLayerForEntry inputs' "tools" id := by
      intro _
      rw [supplyingLayer_trusted hnone, supplyingLayer_trusted hnone', trustedSorted_congr hsame]
    have hloop := (fromResolver_ok_iff.mp hok).2
    rw [registerTools_congr hsup, hdefined, (fromResolver_ok_iff.mp hok').2] at hloop
    have heq : registry = registry' := congrArg ToolRegistry.mk (Except.ok.inj hloop).symm
    exact ⟨heq, by rw [heq]⟩
  · intro _ hin hlayer id _ htool
    cases hok : fromResolver inputs roleIds subagentWired with
    | error err => exact ⟨err, rfl⟩
    | ok =>
      have hempty := fromResolver_ok_trusted hok hin hlayer id
      rw [toolEntry, htool] at hempty
      exact absurd hempty (by simp)

def userTool : ConfigInput :=
  layered .globalUser "user" ["tools.lint.kind", "tools.lint.command", "tools.lint.visible_to"]
    { tools := some {("lint", { kind := some "command", command := some ["cargo", "clippy"],
                                visibleTo := some ["implement"] })} }

def projectRetry : ConfigInput :=
  layered .project "project" ["retry.max_attempts"] { retry := some { maxAttempts := some 3 } }

def projectTool : ConfigInput :=
  layered .project "project" ["tools.lint.command"]
    { tools := some {("lint", { command := some ["sh", "-c", "true"] })} }

theorem untrusted_layers_powerless_sample :
    (∃ registry, fromResolver [userTool] ["implement"] false = .ok registry ∧
      fromResolver [projectRetry, userTool] ["implement"] false = .ok registry) ∧
    ∃ err, fromResolver [projectTool, userTool] ["implement"] false = .error err := by
  have hsame : SameTrusted [userTool] [projectRetry, userTool] := by
    intro _ hlayer
    fin_cases hlayer <;> rfl
  have hsame' : SameTrusted [projectTool, userTool] [userTool] := by
    intro _ hlayer
    fin_cases hlayer <;> rfl
  have hok := ok_of_isSome (x := fromResolver [userTool] ["implement"] false) (by decide +kernel)
  have hok' := ok_of_isSome (x := fromResolver [projectRetry, userTool] ["implement"] false)
    (by decide +kernel)
  have heq := (untrusted_layers_powerless ["implement"] false _ _ hsame).1 _ _ hok hok'
  refine ⟨⟨_, hok, heq.1 ▸ hok'⟩, ?_⟩
  exact (untrusted_layers_powerless ["implement"] false _ _ hsame').2 projectTool
    mem_cons_self (by decide) "lint" _ rfl

end Tool

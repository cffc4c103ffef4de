import Orchestraitor.Config.Leaf

/-!
# The layered resolver (`resolver.rs`)

A resolver holds its inputs in the order in which they were added; an input is a parsed
configuration with its source and the dotted keys that it sets.  How the keys are read off a TOML
document is left open: an input may carry any set of keys.
-/

namespace Config
open Base Std

inductive ConfigError where
  | ambiguousConflict (key : String) (sources : List String)
  deriving DecidableEq

structure ConfigInput where
  source : ConfigSource
  config : OrchestraitorConfig
  keys : OrdSet String

def ConfigInput.layer (input : ConfigInput) : ConfigLayer := input.source.layer

def layered (layer : ConfigLayer) (name : String) (keys : List String)
    (config : OrchestraitorConfig) : ConfigInput where
  source := { layer := layer, name := name }
  config := config
  keys := ExtTreeSet.ofList keys compare

/-! ## ambiguity -/

def layerInputs (key : String) (layer : ConfigLayer) (inputs : List ConfigInput) :
    List ConfigInput :=
  inputs.filter (fun input => input.keys.contains key && input.layer == layer)

/-- the groups are tried in layer order, as the ordered map of the source yields them -/
def rejectAmbiguousConflicts (key : String) (inputs : List ConfigInput) :
    Except ConfigError Unit :=
  match ConfigLayer.all.find? (fun layer => (layerInputs key layer inputs).length > 1) with
  | some layer =>
    .error (.ambiguousConflict key ((layerInputs key layer inputs).map (fun i => i.source.name)))
  | none => .ok ()

def rejectKeys (inputs : List ConfigInput) : List String → Except ConfigError Unit
  | [] => .ok ()
  | key :: rest =>
    match rejectAmbiguousConflicts key inputs with
    | .error err => .error err
    | .ok () => rejectKeys inputs rest

variable (inputs : List ConfigInput)

def allKeys : OrdSet String :=
  ExtTreeSet.ofList (inputs.flatMap (fun input => input.keys.toList)) compare

def rejectAllAmbiguousConflicts : Except ConfigError Unit :=
  rejectKeys inputs (allKeys inputs).toList

/-! ## queries -/

def resolveValue {τ : Type} (key : String) (extract : OrchestraitorConfig → Option τ) :
    Except ConfigError (Option (ResolvedValue τ)) :=
  let sorted := sortByKey ConfigInput.layer inputs
  match rejectAmbiguousConflicts key sorted with
  | .error err => .error err
  | .ok () =>
    .ok (sorted.foldl (fun resolved input =>
      match extract input.config with
      | some value => some { value := value, source := input.source, inherited := false }
      | none => resolved) none)

def resolveConfig : Except ConfigError OrchestraitorConfig :=
  match rejectAllAmbiguousConflicts inputs with
  | .error err => .error err
  | .ok () =>
    let sorted := sortByKey ConfigInput.layer inputs
    .ok (sorted.foldl (fun merged input => merged.merge input.config) {})

def containsEntry (map key : String) (config : OrchestraitorConfig) : Bool :=
  if map = "tools" then (entryOf key config.tools).isSome
  else if map = "roles" then (entryOf key config.roles).isSome
  else false

def supplyingLayerForEntry (map key : String) : Option ConfigSource :=
  let sorted := sortByKey ConfigInput.layer inputs
  (sorted.reverse.find? (fun input => containsEntry map key input.config)).map ConfigInput.source

/-! ## what the ambiguity check accepts -/

theorem rejectAmbiguousConflicts_ok_iff (key : String) (inputs : List ConfigInput) :
    rejectAmbiguousConflicts key inputs = .ok () ↔
      ∀ layer, (layerInputs key layer inputs).length ≤ 1 := by
  unfold rejectAmbiguousConflicts
  split
  · rename_i layer h
    have hlen := List.find?_some h
    simp only [decide_eq_true_eq] at hlen
    refine iff_of_false (by simp) (fun hall => ?_)
    have := hall layer
    omega
  · rename_i h
    refine iff_of_true rfl (fun layer => ?_)
    have hlayer := List.find?_eq_none.mp h layer (ConfigLayer.mem_all layer)
    simp only [decide_eq_true_eq] at hlayer
    omega

theorem rejectKeys_ok_iff (keys : List String) : rejectKeys inputs keys = .ok () ↔
      ∀ key ∈ keys, rejectAmbiguousConflicts key inputs = .ok () := by
  induction keys with
  | nil => simp [rejectKeys]
  | cons key _ ih =>
    rw [rejectKeys, List.forall_mem_cons, ← ih]
    cases rejectAmbiguousConflicts key inputs with
    | error | ok => simp

theorem mem_allKeys (key : String) (inputs : List ConfigInput) :
    key ∈ allKeys inputs ↔ ∃ input ∈ inputs, key ∈ input.keys := by
  rw [allKeys, ExtTreeSet.mem_ofList, List.contains_iff_mem, List.mem_flatMap]
  simp only [ExtTreeSet.mem_toList]

theorem rejectAll_ok_iff : rejectAllAmbiguousConflicts inputs = .ok () ↔
      ∀ key layer, (layerInputs key layer inputs).length ≤ 1 := by
  rw [rejectAllAmbiguousConflicts, rejectKeys_ok_iff]
  constructor
  · intro h key layer
    by_cases hkey : key ∈ allKeys inputs
    · exact (rejectAmbiguousConflicts_ok_iff key inputs).mp
        (h key (ExtTreeSet.mem_toList.mpr hkey)) layer
    · -- no input sets the key
      have hnil : layerInputs key layer inputs = [] := by
        rw [layerInputs, List.filter_eq_nil_iff]
        intro input hin hset
        rw [Bool.and_eq_true] at hset
        exact hkey ((mem_allKeys key inputs).mpr ⟨input, hin, hset.1⟩)
      rw [hnil]
      exact Nat.zero_le 1
  · exact fun h key _ => (rejectAmbiguousConflicts_ok_iff key inputs).mpr (h key)

theorem length_layerInputs_perm {inputs inputs' : List ConfigInput} (hp : inputs.Perm inputs')
    (key : String) (layer : ConfigLayer) :
    (layerInputs key layer inputs).length = (layerInputs key layer inputs').length :=
  (hp.filter _).length_eq

theorem rejectAll_perm {inputs inputs' : List ConfigInput} (hp : inputs.Perm inputs')
    (h : rejectAllAmbiguousConflicts inputs = .ok ()) :
    rejectAllAmbiguousConflicts inputs' = .ok () := by
  rw [rejectAll_ok_iff] at h ⊢
  intro key layer
  rw [← length_layerInputs_perm hp]
  exact h key layer

def mergedOf : OrchestraitorConfig :=
  ((sortByKey ConfigInput.layer inputs).map ConfigInput.config).foldl OrchestraitorConfig.merge {}

theorem resolveConfig_ok_iff (merged : OrchestraitorConfig) : resolveConfig inputs = .ok merged ↔
      rejectAllAmbiguousConflicts inputs = .ok () ∧ merged = mergedOf inputs := by
  unfold resolveConfig mergedOf
  rw [List.foldl_map]
  cases rejectAllAmbiguousConflicts inputs with
  | error => simp
  | ok => simp [eq_comm]

end Config

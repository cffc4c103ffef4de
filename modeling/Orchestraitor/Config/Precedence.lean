import Orchestraitor.Config.Resolver

/-!
# Precedence of layers

Each leaf should have the value of the highest layer that defines it, whatever the order in which
the inputs were added.  Leaves that a merge function does not name break this: they keep the
value of the lowest layer that carries their block, and `observability` is lost altogether.
-/

namespace Config
open Base Std

def Leaf.of (leaf : Leaf) (input : ConfigInput) : Option ConfigValue := leaf.get input.config

/-- the resolver accepts the keys, and no leaf is set by two inputs of one layer -/
structure NoConflict (inputs : List ConfigInput) : Prop where
  accepted : rejectAllAmbiguousConflicts inputs = .ok ()
  sole : ∀ leaf : Leaf, SoleByKey leaf.of ConfigInput.layer inputs

/-- the value of each leaf comes from the highest layer that defines it, as `resolve_value` has
it, and not from the order of the inputs -/
structure PrecedenceResult (inputs : List ConfigInput) (merged : OrchestraitorConfig) : Prop where
  topmost : ∀ (leaf : Leaf) (input : ConfigInput),
    Topmost leaf.of ConfigInput.layer inputs input → leaf.get merged = leaf.of input
  absent : ∀ leaf : Leaf, leaf.get merged = none → ∀ input ∈ inputs, leaf.of input = none
  sameValue : ∀ (leaf : Leaf) (key : String), ∃ resolved,
    resolveValue inputs key leaf.get = .ok resolved ∧
      leaf.get merged = resolved.map ResolvedValue.value
  anyOrder : ∀ inputs' : List ConfigInput, inputs'.Perm inputs → ∃ merged',
    resolveConfig inputs' = .ok merged' ∧ ∀ leaf : Leaf, leaf.get merged' = leaf.get merged

def ResolvesByPrecedence (inputs : List ConfigInput) : Prop :=
  ∃ merged, resolveConfig inputs = .ok merged ∧ PrecedenceResult inputs merged

def Carrier.presentIn (carrier : Carrier) (input : ConfigInput) : Bool :=
  carrier.present input.config

/-- no input has an `observability` block, and a leaf that its block's merge does not name has,
in every input of the lowest layer with that block, the value of the highest layer that sets it -/
structure UnmergedAgree (inputs : List ConfigInput) : Prop where
  observability : ∀ input ∈ inputs, input.config.observability = none
  stays : ∀ (leaf : Leaf) (carrier : Carrier), leaf.fate = .stays carrier →
    ∀ lowest highest, Lowest carrier.presentIn ConfigInput.layer inputs lowest →
      Topmost leaf.of ConfigInput.layer inputs highest → leaf.of lowest = leaf.of highest

variable {inputs : List ConfigInput} {leaf : Leaf}

theorem NoConflict.perm {inputs' : List ConfigInput} (h : NoConflict inputs)
    (hp : inputs.Perm inputs') : NoConflict inputs' :=
  ⟨rejectAll_perm hp h.accepted, fun leaf => (h.sole leaf).perm hp⟩

theorem UnmergedAgree.perm {inputs' : List ConfigInput} (h : UnmergedAgree inputs)
    (hp : inputs.Perm inputs') : UnmergedAgree inputs' := by
  refine ⟨fun input hin => h.observability input (hp.mem_iff.mpr hin), ?_⟩
  intro leaf carrier hfate lowest highest hlow htop
  have hlow' : Lowest carrier.presentIn ConfigInput.layer inputs lowest :=
    ⟨hp.mem_iff.mpr hlow.mem, hlow.holds, fun b hb => hlow.least b (hp.mem_iff.mp hb)⟩
  exact h.stays leaf carrier hfate lowest highest hlow' (htop.perm hp.symm)

/-! ## the merged value of a leaf -/

theorem get_mergedOf_overrides (h : leaf.fate = .overrides) (inputs : List ConfigInput) :
    leaf.get (mergedOf inputs) = lastDefined leaf.of (sortByKey ConfigInput.layer inputs) := by
  rw [mergedOf, (merge_overrides h).foldl, get_default, Option.or_none, lastDefined_map]
  rfl

theorem get_mergedOf_stays {carrier : Carrier} (h : leaf.fate = .stays carrier)
    (inputs : List ConfigInput) : leaf.get (mergedOf inputs) =
      ((sortByKey ConfigInput.layer inputs).find? carrier.presentIn).bind leaf.of := by
  have hempty : ¬ carrier.present {} = true := by
    cases carrier <;> exact Bool.false_ne_true
  rw [mergedOf, (merge_keepsFirst h).foldl, if_neg hempty, List.find?_map, Option.bind_map]
  rfl

theorem get_mergedOf_dropped (h : leaf.fate = .dropped) (inputs : List ConfigInput) :
    leaf.get (mergedOf inputs) = none := by
  rw [mergedOf]
  generalize (sortByKey ConfigInput.layer inputs).map ConfigInput.config = configs
  induction configs using List.reverseRecOn with
  | nil => exact get_default leaf
  | append_singleton _ config ih =>
    rw [List.foldl_append]
    exact (merge_dropped h _ config).trans ih

theorem present_of_defines {carrier : Carrier} (h : leaf.fate = .stays carrier)
    {input : ConfigInput} (hd : (leaf.of input).isSome = true) :
    carrier.presentIn input = true := by
  by_contra hnot
  rw [Leaf.of, (merge_keepsFirst h).get_of_not _ hnot] at hd
  exact Bool.false_ne_true hd

theorem resolveValue_lastDefined (h : NoConflict inputs) (leaf : Leaf) (key : String) :
    ∃ resolved, resolveValue inputs key leaf.get = .ok resolved ∧ resolved.map ResolvedValue.value =
        lastDefined leaf.of (sortByKey ConfigInput.layer inputs) := by
  have hkey : rejectAmbiguousConflicts key (sortByKey ConfigInput.layer inputs) = .ok () := by
    rw [rejectAmbiguousConflicts_ok_iff]
    intro layer
    rw [length_layerInputs_perm (sortByKey_perm ConfigInput.layer inputs)]
    exact (rejectAll_ok_iff inputs).mp h.accepted key layer
  unfold resolveValue
  dsimp only
  rw [hkey]
  refine ⟨_, rfl, ?_⟩
  rw [← map_lastDefined leaf.of (fun input value => ResolvedValue.mk value input.source false)
    _ ResolvedValue.value (fun _ _ => rfl)]
  congr 2
  funext resolved input
  unfold Leaf.of
  dsimp only
  cases leaf.get input.config with
  | none | some => rfl

theorem get_mergedOf_agree (h : NoConflict inputs) (hagree : UnmergedAgree inputs) (leaf : Leaf) :
    leaf.get (mergedOf inputs) = lastDefined leaf.of (sortByKey ConfigInput.layer inputs) := by
  cases hfate : leaf.fate with
  | overrides => exact get_mergedOf_overrides hfate inputs
  | dropped =>
    have hleaf : leaf = .recordPayloads := by
      unfold Leaf.fate at hfate
      split at hfate <;> first | rfl | exact Fate.noConfusion hfate
    rw [get_mergedOf_dropped hfate, eq_comm, lastDefined_eq_none]
    intro input hin
    rw [hleaf, Leaf.of, Leaf.get,
      hagree.observability input ((mem_sortByKey ConfigInput.layer).mp hin)]
    rfl
  | stays carrier =>
    rw [eq_lastDefined_iff (h.sole leaf), get_mergedOf_stays hfate]
    constructor
    · intro highest htop
      cases hfind : (sortByKey ConfigInput.layer inputs).find? carrier.presentIn with
      | none =>
        have hmem := (mem_sortByKey ConfigInput.layer).mpr htop.mem
        exact absurd (present_of_defines hfate htop.defines)
          (List.find?_eq_none.mp hfind highest hmem)
      | some lowest =>
        exact hagree.stays leaf carrier hfate lowest highest (lowest_of_find hfind) htop
    · intro hnone
      cases hfind : (sortByKey ConfigInput.layer inputs).find? carrier.presentIn with
      | none => rfl
      | some lowest => exact hnone lowest (lowest_of_find hfind).mem

theorem precedence_of_agree (h : NoConflict inputs) (hagree : UnmergedAgree inputs) :
    PrecedenceResult inputs (mergedOf inputs) := by
  refine ⟨fun leaf input htop => ?_, fun leaf hnone input hin => ?_, fun leaf key => ?_,
    fun inputs' hp => ?_⟩
  · exact ((eq_lastDefined_iff (h.sole leaf) _).mp (get_mergedOf_agree h hagree leaf)).1 input htop
  · rw [get_mergedOf_agree h hagree, lastDefined_eq_none] at hnone
    exact hnone input ((mem_sortByKey ConfigInput.layer).mpr hin)
  · obtain ⟨resolved, hok, hval⟩ := resolveValue_lastDefined h leaf key
    exact ⟨resolved, hok, (get_mergedOf_agree h hagree leaf).trans hval.symm⟩
  · have h' := h.perm hp.symm
    refine ⟨mergedOf inputs', (resolveConfig_ok_iff _ _).mpr ⟨h'.accepted, rfl⟩, fun leaf => ?_⟩
    rw [get_mergedOf_agree h' (hagree.perm hp.symm), get_mergedOf_agree h hagree,
      lastDefined_perm (h'.sole leaf) hp]

/-- moving an input to the front makes it the first of the lowest layer, so an unnamed leaf
takes its value: order independence forces agreement -/
theorem agree_of_precedence (hres : PrecedenceResult inputs (mergedOf inputs)) :
    UnmergedAgree inputs := by
  constructor
  · intro input hin
    have hnone := hres.absent .recordPayloads (get_mergedOf_dropped rfl inputs) input hin
    exact Option.map_eq_none_iff.mp hnone
  · intro leaf carrier hfate lowest highest hlow htop
    obtain ⟨before, after, rfl⟩ := List.append_of_mem hlow.mem
    have hperm : (lowest :: (before ++ after)).Perm (before ++ lowest :: after) :=
      List.perm_middle.symm
    obtain ⟨merged', hok, hleaf⟩ := hres.anyOrder _ hperm
    rw [((resolveConfig_ok_iff _ _).mp hok).2] at hleaf
    have hfirst : (sortByKey ConfigInput.layer (lowest :: (before ++ after))).find?
        carrier.presentIn = some lowest :=
      find_sortByKey_cons ConfigInput.layer hlow.holds (fun b hb =>
        hlow.least b (hperm.mem_iff.mp (List.mem_cons_of_mem _ hb)))
    calc leaf.of lowest = leaf.get (mergedOf (lowest :: (before ++ after))) := by
          rw [get_mergedOf_stays hfate, hfirst]
          rfl
      _ = leaf.get (mergedOf (before ++ lowest :: after)) := hleaf leaf
      _ = leaf.of highest := hres.topmost leaf highest htop

/-- every leaf is resolved by precedence exactly when the unnamed leaves agree -/
theorem resolves_by_precedence_iff (inputs : List ConfigInput) (h : NoConflict inputs) :
    ResolvesByPrecedence inputs ↔ UnmergedAgree inputs := by
  constructor
  · rintro ⟨merged, hok, hres⟩
    obtain ⟨-, rfl⟩ := (resolveConfig_ok_iff _ _).mp hok
    exact agree_of_precedence hres
  · intro hagree
    exact ⟨mergedOf inputs, (resolveConfig_ok_iff _ _).mpr ⟨h.accepted, rfl⟩,
      precedence_of_agree h hagree⟩

def thinkAndRetry (enabled : Bool) (maxAttempts : Nat) : OrchestraitorConfig where
  tools := some {("think", { enabled := some enabled })}
  retry := some { maxAttempts := some maxAttempts }

def agreeingLayers : List ConfigInput :=
  [layered .organizationTeam "org" ["tools.think.enabled", "retry.max_attempts"]
      (thinkAndRetry false 5),
    layered .globalUser "user" ["tools.think.enabled", "retry.max_attempts"]
      (thinkAndRetry false 3)]

def lostIngress : List ConfigInput :=
  [layered .globalUser "user" ["watch.poll_interval_secs"]
      { watch := some { pollIntervalSecs := some 60 } },
    layered .project "project" ["watch.ingress.enabled"]
      { watch := some { ingress := some { enabled := some true } } }]

theorem noConflict_of_layers (haccepted : rejectAllAmbiguousConflicts inputs = .ok ())
    (hlayers : inputs.Pairwise (fun a b => a.layer ≠ b.layer)) : NoConflict inputs :=
  ⟨haccepted, fun _ => hlayers.imp (fun hne heq => absurd heq hne)⟩

theorem lostIngress_noConflict : NoConflict lostIngress :=
  noConflict_of_layers (by decide +kernel) (by decide)

theorem ingress_lost : NoConflict lostIngress ∧ ¬ ResolvesByPrecedence lostIngress := by
  refine ⟨lostIngress_noConflict, ?_⟩
  rintro ⟨merged, hok, hres⟩
  have hnone : (Leaf.watch (.ingress .enabled)).get merged = none := by
    rw [((resolveConfig_ok_iff _ _).mp hok).2]
    decide +kernel
  have habsent := hres.absent _ hnone lostIngress[1] (by simp [lostIngress])
  exact absurd habsent (by decide)

theorem resolves_by_precedence_sample : ResolvesByPrecedence agreeingLayers := by
  have hno : NoConflict agreeingLayers := noConflict_of_layers (by decide +kernel) (by decide)
  -- the unnamed leaves do not read `retry`
  have hsame : ∀ (leaf : Leaf) (carrier : Carrier), leaf.fate = .stays carrier →
      ∀ input ∈ agreeingLayers, leaf.of input = leaf.get (thinkAndRetry false 5) := by
    intro _ _ hfate _ hin
    unfold Leaf.fate at hfate
    simp only [agreeingLayers, List.mem_cons, List.not_mem_nil, or_false] at hin
    split at hfate <;> rcases hin with rfl | rfl <;> first | rfl | exact Fate.noConfusion hfate
  refine (resolves_by_precedence_iff agreeingLayers hno).mpr ⟨?_, ?_⟩
  · intro _ hin
    simp only [agreeingLayers, List.mem_cons, List.not_mem_nil, or_false] at hin
    rcases hin with rfl | rfl <;> rfl
  · intro leaf carrier hfate lowest highest hlow htop
    rw [hsame leaf carrier hfate lowest hlow.mem, hsame leaf carrier hfate highest htop.mem]

end Config

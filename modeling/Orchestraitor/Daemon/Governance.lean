import Orchestraitor.Base.Bytes
import Orchestraitor.Base.Scan
import Orchestraitor.Base.CallRules

/-!
# Routing classified content (`governance.rs`)

`route` decides whether content may go to a provider.  The enforcer and the event sink are calls:
the trace of a run holds what was asked and recorded, in order.
-/

namespace Daemon
open Base Base.Calls

inductive DataClassification where
  | publicData | internal | confidential | restricted
  deriving DecidableEq

structure ClassifiedContent where
  filePaths : List String
  classification : DataClassification

structure ProviderDataGovernance where
  allowedClasses : List DataClassification
  prohibitedPatterns : List String

/-! ## prohibited paths -/

def starStar : List Char := ['*', '*']

/-- the loop over the parts from the byte `pos` on; `none` is the panic of a slice `path[pos..]` that starts
inside a character -/
def scanParts (path : List Char) (anchored : Bool) : List (List Char) → Nat → Option Bool
  | [], _ => some true
  | part :: parts, pos =>
    if part.isEmpty then scanParts path false parts pos
    else match splitBytes pos path with
      | none => none
      | some (_, rest) => match splitOnce part rest with
        | none => some false
        | some (before, _) =>
          if anchored && !before.isEmpty then some false
          else scanParts path false parts (pos + (bytes before + bytes part))

def matchesGlob (pattern path : String) : Option Bool :=
  let pattern := pattern.toList
  let path := path.toList
  if !contains starStar pattern then some (pattern = path)
  else
    let parts := splitPat starStar pattern.length pattern
    (scanParts path (!starStar.isPrefixOf pattern) parts 0).map (· &&
      (starStar.isSuffixOf pattern ||
        (let last := parts.getLastD []
         last.isEmpty || last.isSuffixOf path)))

example : matchesGlob "**/.aws/**" "config/.aws/credentials" = some true := by decide
example : matchesGlob "**/env.local" "env.local.bak" = some false := by decide

section glob
open List

def scanRest (anchored : Bool) : List (List Char) → List Char → Bool
  | [], _ => true
  | part :: parts, rest =>
    if part.isEmpty then scanRest false parts rest
    else match splitOnce part rest with
      | none => false
      | some (before, after) =>
        if anchored && !before.isEmpty then false else scanRest false parts after

/-- every slice starts on a character boundary: behind what was matched -/
theorem scanParts_eq (anchored : Bool) (parts : List (List Char)) (done rest : List Char) :
    scanParts (done ++ rest) anchored parts (bytes done) = some (scanRest anchored parts rest) := by
  induction parts generalizing anchored done rest with
  | nil => rfl
  | cons part parts ih =>
    rw [scanParts, scanRest, splitBytes_append]
    split_ifs with hempty
    · exact ih ..
    · dsimp only
      cases hsplit : splitOnce part rest with
      | none => rfl
      | some r =>
        dsimp only
        split_ifs
        · rfl
        · have hnext := ih false (done ++ (r.1 ++ part)) r.2
          rwa [bytes_append, bytes_append, append_assoc, append_assoc, ← splitOnce_eq hsplit] at hnext

theorem scanRest_iff (parts : List (List Char)) (l : List Char) :
    scanRest false parts l = true ↔ InOrder parts l := by
  induction parts generalizing l with
  | nil => exact iff_of_true rfl trivial
  | cons p parts ih =>
    rw [scanRest]
    split_ifs with hempty
    · obtain rfl := List.isEmpty_iff.mp hempty
      rw [ih]
      constructor
      · exact fun h => ⟨[], l, rfl, h⟩
      · rintro ⟨w, rest, rfl, hrest⟩
        exact hrest.append w
    · constructor
      · intro h
        split at h
        · cases h
        next before after hsplit => exact ⟨before, after, splitOnce_eq hsplit, (ih after).mp h⟩
      · rintro ⟨w, rest, rfl, hrest⟩
        obtain ⟨before, skipped, hsplit⟩ := splitOnce_append w p rest
        rw [hsplit]
        exact (ih _).mpr (hrest.append skipped)

theorem scanRest_first (p : List Char) (parts : List (List Char)) (l : List Char) :
    scanRest (!p.isEmpty) (p :: parts) l = true ↔ ∃ rest, l = p ++ rest ∧ InOrder parts rest := by
  cases hp : p.isEmpty with
  | true =>
    obtain rfl := List.isEmpty_iff.mp hp
    simp [scanRest, scanRest_iff]
  | false =>
    rw [scanRest, if_neg (by simp [hp])]
    constructor
    · intro h
      split at h
      · cases h
      next before after hsplit =>
        split_ifs at h with hbefore
        have hnil : before = [] := by simpa using hbefore
        exact ⟨after, by rw [splitOnce_eq hsplit, hnil]; rfl, (scanRest_iff _ _).mp h⟩
    · rintro ⟨rest, rfl, hrest⟩
      rw [splitOnce_start]
      exact (scanRest_iff _ _).mpr hrest

def stars (l : List Char) : Nat := (l.reverse.takeWhile (· = '*')).length

theorem starStar_suffix_iff (l : List Char) : starStar <:+ l ↔ 2 ≤ stars l := by
  rw [← reverse_prefix, stars]
  generalize l.reverse = r
  cases r with
  | nil => simp [starStar]
  | cons c r =>
    cases r with
    | nil => by_cases hc : c = '*' <;> simp [starStar, hc]
    | cons d r =>
      by_cases hc : c = '*' <;> by_cases hd : d = '*' <;> simp [starStar, hc, hd, eq_comm]

theorem stars_pos_iff {l m : List Char} (h : l <:+ m) (hl : l ≠ []) : 0 < stars l ↔ 0 < stars m := by
  obtain ⟨w, rfl⟩ := h
  obtain ⟨r, c, rfl⟩ := (eq_nil_or_concat l).resolve_left hl
  by_cases hc : c = '*' <;> simp [stars, hc]

theorem stars_of_splitOnce {l before after : List Char} (h : splitOnce starStar l = some (before, after)) :
    stars l % 2 = stars after % 2 := by
  have hbefore : stars before = 0 := by
    -- a star before the first marker would be part of it
    cases hb : before.reverse with
    | nil => simp [stars, hb]
    | cons c r =>
      have hc : c ≠ '*' := by
        rintro rfl
        obtain ⟨b, skipped, hsplit⟩ := splitOnce_append r.reverse starStar ('*' :: after)
        have hl := splitOnce_eq h
        rw [← reverse_reverse before, hb] at hl
        have heq : l = r.reverse ++ (starStar ++ '*' :: after) := by simp [hl, starStar]
        rw [← heq, h, Option.some.injEq, Prod.mk.injEq] at hsplit
        have := congrArg length hsplit.2
        simp only [length_append, length_cons] at this
        omega
      simp [stars, hb, hc]
  rw [splitOnce_eq h, stars, reverse_append, reverse_append, append_assoc, takeWhile_append]
  split_ifs with hall
  · rw [stars] at hbefore
    rw [stars, hall, length_append]
    simp [starStar, hbefore]
  · rfl

theorem splitPat_last {n : Nat} {l : List Char} (hn : l.length ≤ n) :
    ∃ ps last, splitPat starStar n l = ps ++ [last] ∧ last <:+ l ∧ stars last ≤ 1 ∧
      stars last % 2 = stars l % 2 := by
  induction n generalizing l with
  | zero =>
    obtain rfl := length_eq_zero_iff.mp (Nat.le_zero.mp hn)
    exact ⟨[], [], rfl, suffix_rfl, by decide, rfl⟩
  | succ n ih =>
    rw [splitPat]
    split
    next hnone =>
      refine ⟨[], l, rfl, suffix_rfl, ?_, rfl⟩
      by_contra hmany
      obtain ⟨w, rfl⟩ := (starStar_suffix_iff l).mpr (by omega)
      obtain ⟨before, skipped, hsplit⟩ := splitOnce_append w starStar []
      rw [append_nil, hnone] at hsplit
      cases hsplit
    next before after hsplit =>
      have hl := splitOnce_eq hsplit
      have hlen : after.length ≤ n := by
        rw [hl] at hn
        simp only [length_append, starStar, length_cons] at hn
        omega
      obtain ⟨ps, last, heq, hlast, hone, hstars⟩ := ih hlen
      refine ⟨before :: ps, last, by rw [heq]; rfl, ?_, hone, hstars.trans (stars_of_splitOnce hsplit).symm⟩
      rw [hl]
      exact hlast.trans ((suffix_append starStar after).trans (suffix_append before _))

def literals (pattern : String) : List (List Char) := splitPat starStar pattern.toList.length pattern.toList

/-- the path is the first literal, and the others with any texts between them -/
def Decomposes (pattern path : String) : Prop := match literals pattern with
  | [] => False
  | p :: ps => ∃ rest, path.toList = p ++ rest ∧ Fills ps rest

theorem decomposes_iff {pattern path : String} {p last : List Char} {ps : List (List Char)}
    (h : literals pattern = p :: (ps ++ [last])) : Decomposes pattern path ↔
      (∃ rest, path.toList = p ++ rest ∧ InOrder (ps ++ [last]) rest) ∧ last <:+ path.toList := by
  simp only [Decomposes, h, fills_iff]
  constructor
  · rintro ⟨rest, hpath, horder, hlast⟩
    exact ⟨⟨rest, hpath, horder⟩, hpath ▸ hlast.trans (suffix_append p rest)⟩
  · rintro ⟨⟨rest, hpath, horder⟩, hlast⟩
    refine ⟨rest, hpath, horder, ?_⟩
    rw [hpath] at hlast
    exact suffix_of_suffix_length_le hlast (suffix_append p rest) (horder.length_le (by simp))

theorem matchesGlob_iff {pattern : String} (h : contains starStar pattern.toList = true) :
    ∃ p ps last, literals pattern = p :: (ps ++ [last]) ∧ last <:+ pattern.toList ∧ stars last ≤ 1 ∧
      stars last % 2 = stars pattern.toList % 2 ∧ ∀ path, matchesGlob pattern path = some true ↔
        (∃ rest, path.toList = p ++ rest ∧ InOrder (ps ++ [last]) rest) ∧
          (starStar <:+ pattern.toList ∨ last <:+ path.toList) := by
  obtain ⟨w, rest, hpattern⟩ := of_decide_eq_true h
  obtain ⟨before, skipped, hsplit⟩ := splitOnce_append w starStar rest
  rw [← append_assoc, hpattern] at hsplit
  have hl := splitOnce_eq hsplit
  obtain ⟨n, hn⟩ : ∃ n, pattern.toList.length = n + 1 :=
    Nat.exists_eq_add_one.mpr (by simp [hl, starStar])
  have hlen : (skipped ++ rest).length ≤ n := by
    rw [hl] at hn
    simp only [length_append, starStar, length_cons] at hn ⊢
    omega
  obtain ⟨ps, last, hps, hlast, hone, hstars⟩ := splitPat_last hlen
  have hliterals : literals pattern = before :: (ps ++ [last]) := by
    rw [literals, hn, splitPat, hsplit, ← hps]
  have hanchored : starStar.isPrefixOf pattern.toList = before.isEmpty := by
    rw [Bool.eq_iff_iff, isPrefixOf_iff_prefix, List.isEmpty_iff]
    constructor
    · rintro ⟨r, hr⟩
      rw [← hr, splitOnce_start] at hsplit
      cases hsplit
      rfl
    · rintro rfl
      exact ⟨_, hl.symm⟩
  refine ⟨before, ps, last, hliterals, ?_, hone, ?_, fun path => ?_⟩
  · rw [hl]
    exact hlast.trans ((suffix_append starStar _).trans (suffix_append before _))
  · rw [hstars, stars_of_splitOnce hsplit]
  · have hlast : (literals pattern).getLastD [] = last := by simp [hliterals, getLast?_cons]
    rw [matchesGlob]
    simp only [h, Bool.not_true, Bool.false_eq_true, if_false]
    have hscan := scanParts_eq (!before.isEmpty) (before :: (ps ++ [last])) [] path.toList
    rw [nil_append, bytes_nil] at hscan
    rw [← literals, hlast, hliterals, hanchored, hscan, Option.map_some, Option.some.injEq, Bool.and_eq_true,
      scanRest_first, Bool.or_eq_true, isSuffixOf_iff_suffix, Bool.or_eq_true, isSuffixOf_iff_suffix,
      List.isEmpty_iff]
    refine and_congr_right fun _ => or_congr_right (or_iff_right_of_imp ?_)
    rintro rfl
    exact nil_suffix

theorem matchesGlob_isSome (pattern path : String) : (matchesGlob pattern path).isSome = true := by
  unfold matchesGlob
  dsimp only
  split
  · rfl
  · have hscan := scanParts_eq (!starStar.isPrefixOf pattern.toList) (literals pattern) [] path.toList
    rw [nil_append, bytes_nil, literals] at hscan
    rw [hscan]
    rfl

/-- `matches_glob` does not panic, and finds the decompositions, unless the pattern ends in three stars, five
and so on: the last one is a literal then, and is not looked for at the end of the path. -/
theorem matches_glob_iff (pattern : String) :
    (∀ path, (matchesGlob pattern path).isSome = true) ∧
    ((∀ path, matchesGlob pattern path = some true ↔ Decomposes pattern path) ↔
      stars pattern.toList ≤ 1 ∨ stars pattern.toList % 2 = 0) := by
  refine ⟨matchesGlob_isSome pattern, ?_⟩
  by_cases h : contains starStar pattern.toList = true
  · obtain ⟨p, ps, last, hliterals, hsuffix, hone, hstars, hmatch⟩ := matchesGlob_iff h
    simp only [hmatch, decomposes_iff hliterals]
    constructor
    · intro hall
      by_contra hodd
      rw [not_or, not_le] at hodd
      -- a path with more text after the last star
      obtain ⟨-, hends⟩ := (hall (String.ofList (p ++ ((ps ++ [last]).flatten ++ ['x'])))).mp
        ⟨⟨_, String.toList_ofList, inOrder_flatten _ _⟩, .inl ((starStar_suffix_iff _).mpr hodd.1)⟩
      have hpos : 0 < stars last := by omega
      have hne : last ≠ [] := by
        rintro rfl
        cases hpos
      have hx := (stars_pos_iff hends hne).mp hpos
      simp [stars] at hx
    · intro hcond path
      refine and_congr_right fun _ => or_iff_right_of_imp fun hmarker => ?_
      have htwo := (starStar_suffix_iff _).mp hmarker
      have hnil : last = [] := by
        by_contra hne
        have := (stars_pos_iff hsuffix hne).mpr (by omega)
        omega
      rw [hnil]
      exact nil_suffix
  · have hnone : splitOnce starStar pattern.toList = none := by
      cases hsplit : splitOnce starStar pattern.toList with
      | none => rfl
      | some r => exact absurd (decide_eq_true ⟨r.1, r.2, by rw [splitOnce_eq hsplit, append_assoc]⟩) h
    have hliterals : literals pattern = [pattern.toList] := splitPat_of_none hnone _
    refine iff_of_true (fun path => ?_) (.inl ?_)
    · simp only [matchesGlob, h, Decomposes, hliterals, Fills]
      simp [eq_comm]
    · by_contra hmany
      exact h (decide_eq_true ((starStar_suffix_iff _).mpr (not_le.mp hmany)).isInfix)

/-- the pattern says that the path ends in a star -/
theorem matches_glob_odd : matchesGlob "***" "*x" = some true ∧ ¬ Decomposes "***" "*x" := by
  refine ⟨by decide, ?_⟩
  rw [Decomposes, show literals "***" = [[], ['*']] by decide, show "*x".toList = ['*', 'x'] by decide]
  rintro ⟨_, rfl, w, rest, hends, rfl⟩
  have := congrArg getLast? hends
  simp at this

end glob

namespace ProviderDataGovernance

def allowsClass (governance : ProviderDataGovernance) (cls : DataClassification) : Bool :=
  governance.allowedClasses.contains cls

def matchesProhibited (governance : ProviderDataGovernance) (filePaths : List String) : Bool :=
  filePaths.any fun path => governance.prohibitedPatterns.any fun pattern =>
    matchesGlob pattern path = some true

end ProviderDataGovernance

/-! ## decisions -/

inductive RoutingDecision where
  | allow | block

inductive ReleaseVerdict where
  | permit
  | deny (reason : String)

inductive GovernanceError where
  | restrictedContentBlocked (destination : String)
  | classificationNotAllowed (destination : String)
  | prohibitedPath (destination : String)
  | arbitraitorEnforcement (reason : String)
  | arbitraitorPolicy (reason : String)
  | policyDenial (destination reason : String)
  | transientTransport (provider reason : String)
  | circuitBreakerOpen (provider : String)
  | retryBudgetExhausted (provider : String)
  | cancelled

structure DataEgressPreview where
  filePaths : List String
  classification : DataClassification
  destination : String

inductive RouterQuery where
  | enforceDataRelease (content : ClassifiedContent) (destination : String)
  | recordPreview (preview : DataEgressPreview)

@[reducible] def RouterAnswer : RouterQuery → Type
  | .enforceDataRelease _ _ => Except GovernanceError ReleaseVerdict
  | .recordPreview _ => Unit

variable (content : ClassifiedContent)

def blocked (governance : ProviderDataGovernance) : Bool :=
  content.classification = .restricted || !governance.allowsClass content.classification ||
    governance.matchesProhibited content.filePaths

def previewOf (providerId : String) : DataEgressPreview :=
  { filePaths := content.filePaths, classification := content.classification
    destination := providerId }

def route (providerId : String) (governance : ProviderDataGovernance) :
    Calls RouterAnswer (Except GovernanceError RoutingDecision) :=
  if blocked content governance then
    .call (.enforceDataRelease content providerId) fun
    | .error error => .ret (.error error)
    | .ok .permit => .ret (.ok .allow)
    | .ok (.deny _) => .ret (.ok .block)
  else .call (.recordPreview (previewOf content providerId)) fun _ => .ret (.ok .allow)

/-! ## the enforcer of the daemon -/

inductive Verdict where
  | pass | warn | block | prompt | error | incomplete

def DataClassification.debug : DataClassification → String
  | .publicData => "Public"
  | .internal => "Internal"
  | .confidential => "Confidential"
  | .restricted => "Restricted"

def defaultPolicyToml : String := "version = 1\n"

section enforcer
variable (evaluatePolicy : String → Except String Verdict) (policyToml : String)

/-- `ArbitraitorEnforcer::enforce_data_release`; `evaluatePolicy` is the policy engine without findings and
with the default context -/
def enforceDataRelease (content : ClassifiedContent) (destination : String) :
    Except GovernanceError ReleaseVerdict :=
  match evaluatePolicy policyToml with
  | .error error => .error (.arbitraitorEnforcement error)
  | .ok .pass | .ok .warn => .ok .permit
  | .ok .block | .ok .prompt => .ok (.deny ("arbitraitor denied release of " ++
      content.classification.debug ++ " content to " ++ destination))
  | .ok .error => .error (.arbitraitorPolicy "arbitraitor returned Error verdict")
  | .ok .incomplete => .error (.arbitraitorPolicy "arbitraitor returned Incomplete verdict")

end enforcer

/-! ## what a decision guarantees -/

/-- no reason to block -/
def Clear (governance : ProviderDataGovernance) : Prop :=
  governance.allowsClass content.classification = true ∧
    governance.matchesProhibited content.filePaths = false

def asked (trace : List (Sigma RouterAnswer)) : Bool :=
  trace.any fun e => match e.1 with
    | .enforceDataRelease _ _ => true
    | .recordPreview _ => false

def previews (trace : List (Sigma RouterAnswer)) : List DataEgressPreview :=
  trace.filterMap fun e => match e.1 with
    | .enforceDataRelease _ _ => none
    | .recordPreview preview => some preview

section guarantee
variable {σ : Type} (h : σ → (q : RouterQuery) → RouterAnswer q × σ) (s : σ)
  (content : ClassifiedContent) (providerId : String) (governance : ProviderDataGovernance)

def verdictAt : Except GovernanceError ReleaseVerdict :=
  (h s (.enforceDataRelease content providerId)).1

/-- what a routing decision promises -/
structure Governed : Prop where
  restricted : content.classification = .restricted →
    ((route content providerId governance).run h s).1 ≠ .ok .allow
  clear : content.classification ≠ .restricted →
    (((route content providerId governance).run h s).1 = .ok .allow ∧
      asked ((route content providerId governance).trace h s) = false ↔ Clear content governance)
  permitted : ¬ Clear content governance →
    ((route content providerId governance).run h s).1 = .ok .allow →
    ⟨.enforceDataRelease content providerId, .ok .permit⟩ ∈
      (route content providerId governance).trace h s
  preview : ((route content providerId governance).run h s).1 = .ok .allow →
    previews ((route content providerId governance).trace h s) = [previewOf content providerId]

theorem blocked_eq_false : blocked content governance = false ↔
    content.classification ≠ .restricted ∧ Clear content governance := by
  unfold blocked Clear
  simp [and_assoc]

variable {content governance}

theorem route_of_clear (hclear : blocked content governance = false) :
    ((route content providerId governance).run h s).1 = .ok .allow ∧
      asked ((route content providerId governance).trace h s) = false ∧
      previews ((route content providerId governance).trace h s) =
        [previewOf content providerId] := by
  unfold route
  rw [hclear]
  exact ⟨rfl, rfl, rfl⟩

theorem route_of_blocked (hblocked : blocked content governance = true) :
    (((route content providerId governance).run h s).1 = .ok .allow ↔
      verdictAt h s content providerId = .ok .permit) ∧
      asked ((route content providerId governance).trace h s) = true ∧
      previews ((route content providerId governance).trace h s) = [] := by
  unfold route verdictAt
  rw [hblocked, if_pos rfl, Calls.run, Calls.trace]
  cases (h s (.enforceDataRelease content providerId)).1 with
  | error => exact ⟨by simp [Calls.run], rfl, rfl⟩
  | ok decision =>
    cases decision with
    | permit | deny => exact ⟨by simp [Calls.run], rfl, rfl⟩

/-- A routing decision keeps its promises exactly when there is no reason to block, or the enforcer does not
permit the release. -/
theorem route_governed_iff : Governed h s content providerId governance ↔
    content.classification ≠ .restricted ∧ Clear content governance ∨
      verdictAt h s content providerId ≠ .ok .permit := by
  cases hb : blocked content governance with
  | false =>
    obtain ⟨hallow, hasked, hpreviews⟩ := route_of_clear h s providerId hb
    obtain ⟨hclass, hclear⟩ := (blocked_eq_false content governance).mp hb
    refine iff_of_true ?_ (.inl ⟨hclass, hclear⟩)
    exact { restricted := fun hr => absurd hr hclass
            clear := fun _ => iff_of_true ⟨hallow, hasked⟩ hclear
            permitted := fun hnot => absurd hclear hnot
            preview := fun _ => hpreviews }
  | true =>
    obtain ⟨hallow, hasked, hpreviews⟩ := route_of_blocked h s providerId hb
    have hnot : ¬ (content.classification ≠ .restricted ∧ Clear content governance) := by
      rw [← blocked_eq_false, hb]
      exact Bool.true_eq_false_eq_False
    constructor
    · -- an allowed release without its preview
      intro hg
      refine .inr fun hpermit => ?_
      have hpreview := hg.preview (hallow.mpr hpermit)
      rw [hpreviews] at hpreview
      cases hpreview
    · intro hcond
      have hdenied := hcond.resolve_left hnot
      have hnever : ((route content providerId governance).run h s).1 ≠ .ok .allow :=
        fun ha => hdenied (hallow.mp ha)
      refine { restricted := fun _ => hnever, clear := fun hclass => iff_of_false ?_ ?_
               permitted := fun _ ha => absurd ha hnever, preview := fun ha => absurd ha hnever }
      · exact fun ha => hnever ha.1
      · exact fun hclear => hnot ⟨hclass, hclear⟩

end guarantee

def passing (n : Nat) : (q : RouterQuery) → RouterAnswer q × Nat
  | .enforceDataRelease content destination =>
    (enforceDataRelease (fun _ => .ok .pass) defaultPolicyToml content destination, n)
  | .recordPreview _ => ((), n + 1)

def secretKey : ClassifiedContent := ⟨["secrets/key.pem"], .restricted⟩

/-- restricted content is allowed, and without a preview -/
theorem restricted_allowed :
    ((route secretKey "neuralwatt" ⟨[.internal], []⟩).run passing 0).1 = .ok .allow ∧
    previews ((route secretKey "neuralwatt" ⟨[.internal], []⟩).trace passing 0) = [] ∧
    ¬ Governed passing 0 secretKey "neuralwatt" ⟨[.internal], []⟩ :=
  ⟨rfl, rfl, fun hg => hg.restricted rfl rfl⟩

end Daemon

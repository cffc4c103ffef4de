import Orchestraitor.Base.Prim

/-!
# Scanning text

What a scanner finds in a text, as a list, and how it stands when the text is put into a longer one.

* `Persists f`            what `f` finds in a text it finds in every text around it;
* `matchRests pat l`      what follows each match of `str::match_indices`, which are disjoint; for an
                          `Unbordered` pattern these are all the occurrences (`mem_matchRests`);
* `Fills ps l`            pieces in their order, with any texts before them and the last at the end; the first
                          matches decide (`splitOnce_append`, `fills_iff`);
* `words sep l`           the non-empty pieces of `str::split`; a longer text only adds words and lengthens
                          the first and the last one (`words_append`, `words_infix`).
-/

set_option linter.unusedSectionVars false

namespace Base
open List

section
variable {α : Type} [DecidableEq α]

def Persists (f : List α → Bool) : Prop := ∀ ⦃s t⦄, s <:+: t → f s = true → f t = true

theorem Persists.or {f g : List α → Bool} (hf : Persists f) (hg : Persists g) :
    Persists fun l => f l || g l := by
  intro s t hst h
  rw [Bool.or_eq_true] at h ⊢
  exact h.imp (hf hst) (hg hst)

theorem Persists.and {f g : List α → Bool} (hf : Persists f) (hg : Persists g) :
    Persists fun l => f l && g l := by
  intro s t hst h
  rw [Bool.and_eq_true] at h ⊢
  exact ⟨hf hst h.1, hg hst h.2⟩

theorem persists_any {ι : Type} {f : ι → List α → Bool} {is : List ι} (h : ∀ i ∈ is, Persists (f i)) :
    Persists fun l => is.any (f · l) := by
  intro s t hst hs
  obtain ⟨i, hi, hfound⟩ := any_eq_true.mp hs
  exact any_eq_true.mpr ⟨i, hi, h i hi hst hfound⟩

theorem Persists.comp_map {β : Type} {f : List α → Bool} (hf : Persists f) (g : β → α) :
    Persists fun l : List β => f (l.map g) :=
  fun _ _ hst h => hf (hst.map g) h

def contains (pat l : List α) : Bool := decide (pat <:+: l)

theorem persists_contains (pat : List α) : Persists (contains pat) := by
  intro s t hst h
  exact decide_eq_true ((of_decide_eq_true h).trans hst)

/-- `str::split_once`: what precedes the first match of a pattern, and what follows it -/
def splitOnce (pat : List α) : List α → Option (List α × List α)
  | [] => if pat.isEmpty then some ([], []) else none
  | c :: l => if pat.isPrefixOf (c :: l) then some ([], (c :: l).drop pat.length)
    else (splitOnce pat l).map fun (before, after) => (c :: before, after)

/-- the pieces of `str::split` by a pattern, in at most `n` cuts -/
def splitPat (pat : List α) : Nat → List α → List (List α)
  | 0, l => [l]
  | n + 1, l => match splitOnce pat l with
    | none => [l]
    | some (before, after) => before :: splitPat pat n after

theorem splitOnce_start (pat rest : List α) : splitOnce pat (pat ++ rest) = some ([], rest) := by
  cases pat with
  | nil => cases rest <;> rfl
  | cons c pat => simp [splitOnce]

theorem splitOnce_eq {pat l before after : List α} (h : splitOnce pat l = some (before, after)) :
    l = before ++ (pat ++ after) := by
  fun_induction splitOnce pat l generalizing before with
  | case1 hpat =>
    cases h
    simpa using hpat
  | case2 => cases h
  | case3 c l hpre =>
    cases h
    exact (prefix_iff_eq_append.mp ( isPrefixOf_iff_prefix.mp hpre)).symm
  | case4 _ _ _ ih =>
    obtain ⟨⟨b, a⟩, hsplit, heq⟩ := Option.map_eq_some_iff.mp h
    cases heq
    exact congrArg _ (ih hsplit)

theorem splitOnce_append (w pat rest : List α) :
    ∃ before skipped, splitOnce pat (w ++ (pat ++ rest)) = some (before, skipped ++ rest) := by
  induction w with
  | nil => exact ⟨[], [], splitOnce_start pat rest⟩
  | cons c w ih =>
    rw [cons_append, splitOnce]
    split_ifs
    · refine ⟨[], (c :: w ++ pat).drop pat.length, ?_⟩
      rw [← cons_append, ← append_assoc, drop_append_of_le_length]
      simp only [length_append, length_cons]
      omega
    · obtain ⟨before, skipped, h⟩ := ih
      exact ⟨c :: before, skipped, by rw [h]; rfl⟩

theorem splitPat_of_none {pat l : List α} (h : splitOnce pat l = none) (n : Nat) :
    splitPat pat n l = [l] := by
  cases n with
  | zero => rfl
  | succ n => rw [splitPat, h]

/-! ## pieces in their order -/

def InOrder : List (List α) → List α → Prop
  | [], _ => True
  | p :: ps, l => ∃ w rest, l = w ++ (p ++ rest) ∧ InOrder ps rest

def Fills : List (List α) → List α → Prop
  | [], l => l = []
  | p :: ps, l => ∃ w rest, l = w ++ (p ++ rest) ∧ Fills ps rest

section
variable {ps : List (List α)} {l p last : List α}

theorem InOrder.append (h : InOrder ps l) (w : List α) : InOrder ps (w ++ l) := by
  cases ps with
  | nil => trivial
  | cons p ps =>
    obtain ⟨w', rest, rfl, hrest⟩ := h
    exact ⟨w ++ w', rest, by rw [append_assoc], hrest⟩

theorem InOrder.length_le (h : InOrder ps l) (hp : p ∈ ps) : p.length ≤ l.length := by
  induction ps generalizing l with
  | nil => cases hp
  | cons q ps ih =>
    obtain ⟨w, rest, rfl, hrest⟩ := h
    simp only [length_append]
    obtain rfl | hp := mem_cons.mp hp
    · omega
    · have := ih hrest hp
      omega

theorem inOrder_flatten (ps : List (List α)) (l : List α) : InOrder ps (ps.flatten ++ l) := by
  induction ps with
  | nil => trivial
  | cons p ps ih => exact ⟨[], ps.flatten ++ l, by simp, ih⟩

theorem fills_iff : Fills (ps ++ [last]) l ↔ InOrder (ps ++ [last]) l ∧ last <:+ l := by
  induction ps generalizing l with
  | nil =>
    constructor
    · rintro ⟨w, rest, rfl, rfl⟩
      exact ⟨⟨w, [], rfl, trivial⟩, by simp⟩
    · rintro ⟨-, w, rfl⟩
      exact ⟨w, [], by simp, rfl⟩
  | cons p ps ih =>
    constructor
    · rintro ⟨w, rest, rfl, hrest⟩
      obtain ⟨horder, hlast⟩ := ih.mp hrest
      exact ⟨⟨w, rest, rfl, horder⟩, hlast.trans ((suffix_append p rest).trans (suffix_append w _))⟩
    · rintro ⟨⟨w, rest, rfl, horder⟩, hlast⟩
      refine ⟨w, rest, rfl, ih.mpr ⟨horder, ?_⟩⟩
      have hsuffix : rest <:+ w ++ (p ++ rest) := (suffix_append p rest).trans (suffix_append w _)
      exact suffix_of_suffix_length_le hlast hsuffix (horder.length_le (by simp))

end

/-! ## matches -/

/-- what follows the matches, the first `skip` characters passed over -/
def matchRestsFrom (pat : List α) : Nat → List α → List (List α)
  | _, [] => []
  | skip + 1, _ :: l => matchRestsFrom pat skip l
  | 0, c :: l =>
    if pat <+: c :: l then (c :: l).drop pat.length :: matchRestsFrom pat (pat.length - 1) l
    else matchRestsFrom pat 0 l

def matchRests (pat l : List α) : List (List α) := matchRestsFrom pat 0 l

/-- no proper end of the pattern is a start of it, so no two occurrences overlap -/
def Unbordered (pat : List α) : Prop := ∀ k < pat.length, 0 < k → ¬ pat.drop k <+: pat

instance (pat : List α) : Decidable (Unbordered pat) :=
  inferInstanceAs (Decidable (∀ k < pat.length, 0 < k → ¬ pat.drop k <+: pat))

theorem Unbordered.apart {pat l : List α} (h : Unbordered pat) (hpat : pat <+: l) {skip : List α}
    {rest : List α} (heq : l = skip ++ pat ++ rest) (hskip : skip ≠ []) : pat.length ≤ skip.length := by
  by_contra hlt
  refine h skip.length (by omega) (length_pos_iff.mpr hskip) ?_
  have htail : pat.drop skip.length <+: l.drop skip.length := hpat.drop skip.length
  have hat : l.drop skip.length = pat ++ rest := by
    rw [heq, append_assoc, drop_left]
  rw [hat] at htail
  exact prefix_of_prefix_length_le htail (prefix_append pat rest) (by simp)

theorem mem_matchRestsFrom {pat : List α} (hpat : pat ≠ []) (h : Unbordered pat) (skip : Nat)
    (l rest : List α) :
    rest ∈ matchRestsFrom pat skip l ↔ ∃ before, l = before ++ pat ++ rest ∧ skip ≤ before.length := by
  induction l generalizing skip with
  | nil =>
    have hnone : ¬ ∃ before, ([] : List α) = before ++ pat ++ rest ∧ skip ≤ before.length := by
      rintro ⟨before, heq, -⟩
      simp [hpat] at heq
    exact iff_of_false not_mem_nil hnone
  | cons c l ih =>
    cases skip with
    | succ =>
      rw [matchRestsFrom, ih]
      constructor
      · rintro ⟨before, rfl, hlen⟩
        exact ⟨c :: before, rfl, by simpa using hlen⟩
      · rintro ⟨before, heq, hlen⟩
        cases before with
        | nil => simp at hlen
        | cons _ before =>
          obtain ⟨rfl, hrest⟩ := cons.inj heq
          exact ⟨before, hrest, by simpa using hlen⟩
    | zero =>
      rw [matchRestsFrom]
      split_ifs with hmatch
      · rw [mem_cons, ih]
        constructor
        · rintro (rfl | ⟨before, rfl, -⟩)
          · refine ⟨[], ?_, Nat.zero_le _⟩
            exact (prefix_iff_eq_append.mp hmatch).symm
          · exact ⟨c :: before, rfl, Nat.zero_le _⟩
        · rintro ⟨before, heq, -⟩
          cases before with
          | nil =>
            left
            rw [heq, nil_append, drop_left]
          | cons d before =>
            right
            -- the next occurrence begins after the end of this one
            have hapart := h.apart hmatch heq (cons_ne_nil d before)
            obtain ⟨rfl, hrest⟩ := cons.inj heq
            rw [length_cons] at hapart
            exact ⟨before, hrest, by omega⟩
      · rw [ih]
        constructor
        · rintro ⟨before, rfl, -⟩
          exact ⟨c :: before, rfl, Nat.zero_le _⟩
        · rintro ⟨before, heq, -⟩
          cases before with
          | nil =>
            refine absurd ?_ hmatch
            rw [heq]
            exact prefix_append pat rest
          | cons _ before =>
            obtain ⟨rfl, hrest⟩ := cons.inj heq
            exact ⟨before, hrest, Nat.zero_le _⟩

theorem mem_matchRests {pat : List α} (hpat : pat ≠ []) (h : Unbordered pat) {l rest : List α} :
    rest ∈ matchRests pat l ↔ ∃ before, l = before ++ pat ++ rest := by
  rw [matchRests, mem_matchRestsFrom hpat h]
  simp

theorem persists_matchRests {pat : List α} (hpat : pat ≠ []) (h : Unbordered pat) {test : List α → Bool}
    (htest : ∀ r b, test r = true → test (r ++ b) = true) :
    Persists fun l => (matchRests pat l).any test := by
  rintro s _ ⟨a, b, rfl⟩ hs
  obtain ⟨rest, hrest, hfound⟩ := any_eq_true.mp hs
  obtain ⟨before, rfl⟩ := (mem_matchRests hpat h).mp hrest
  refine any_eq_true.mpr ⟨rest ++ b, (mem_matchRests hpat h).mpr ⟨a ++ before, ?_⟩, htest _ _ hfound⟩
  simp only [append_assoc]

/-! ## words -/

variable (sep : α → Bool)

def words (l : List α) : List (List α) := (l.splitOnP sep).filter (! ·.isEmpty)

theorem splitOnP_eq_cons (l : List α) : ∃ p ps, l.splitOnP sep = p :: ps :=
  exists_cons_of_ne_nil (splitOnP_ne_nil sep l)

theorem splitOnP_append (l m : List α) : ∃ ps last first qs,
    l.splitOnP sep = ps ++ [last] ∧ m.splitOnP sep = first :: qs ∧
      (l ++ m).splitOnP sep = ps ++ (last ++ first) :: qs := by
  induction l with
  | nil =>
    obtain ⟨first, qs, hm⟩ := splitOnP_eq_cons sep m
    exact ⟨[], [], first, qs, by simp, hm, by simpa using hm⟩
  | cons c l ih =>
    obtain ⟨ps, last, first, qs, hl, hm, hlm⟩ := ih
    rw [cons_append, splitOnP_cons_eq_if_modifyHead, splitOnP_cons_eq_if_modifyHead, hl, hlm]
    split_ifs with hsep
    · exact ⟨[] :: ps, last, first, qs, rfl, hm, rfl⟩
    · cases ps with
      | nil => exact ⟨[], c :: last, first, qs, rfl, hm, rfl⟩
      | cons p ps => exact ⟨(c :: p) :: ps, last, first, qs, rfl, hm, rfl⟩

theorem words_append (l m : List α) : words sep l <+: words sep (l ++ m) ∨
    ∃ ws w more ws', words sep l = ws ++ [w] ∧ words sep (l ++ m) = ws ++ (w ++ more) :: ws' := by
  obtain ⟨ps, last, first, qs, hl, -, hlm⟩ := splitOnP_append sep l m
  rw [words, words, hl, hlm, filter_append, filter_append]
  cases last with
  | nil =>
    left
    simp only [filter_cons, isEmpty_nil, Bool.not_true, Bool.false_eq_true, if_false,
      filter_nil, append_nil]
    exact prefix_append _ _
  | cons c last => exact .inr ⟨_, c :: last, first, qs.filter (! ·.isEmpty), rfl, rfl⟩

theorem words_infix {sep : α → Bool} {s t : List α} (h : s <:+: t) {w : List α} (hw : w ∈ words sep s) :
    ∃ w' ∈ words sep t, w <:+: w' := by
  obtain ⟨a, b, rfl⟩ := h
  obtain ⟨hw, hne⟩ := mem_filter.mp hw
  have hpieces : ∃ w' ∈ (a ++ s ++ b).splitOnP sep, w <:+: w' := by
    obtain ⟨ps, last, first, qs, -, hs, has⟩ := splitOnP_append sep a s
    obtain ⟨ps', last', first', qs', has', -, hasb⟩ := splitOnP_append sep (a ++ s) b
    have hfirst : ∃ w' ∈ (a ++ s).splitOnP sep, w <:+: w' := by
      rw [hs] at hw
      obtain rfl | hw := mem_cons.mp hw
      · exact ⟨last ++ w, by simp [has], (suffix_append last w).isInfix⟩
      · exact ⟨w, by simp [has, hw], infix_refl w⟩
    obtain ⟨w', hw', hinfix⟩ := hfirst
    rw [has'] at hw'
    obtain hw' | hw' := mem_append.mp hw'
    · exact ⟨w', by rw [hasb]; simp [hw'], hinfix⟩
    · obtain rfl := mem_singleton.mp hw'
      exact ⟨w' ++ first', by rw [hasb]; simp, hinfix.trans (prefix_append w' first').isInfix⟩
  obtain ⟨w', hw', hinfix⟩ := hpieces
  refine ⟨w', mem_filter.mpr ⟨hw', ?_⟩, hinfix⟩
  cases w' with
  | nil =>
    rw [infix_nil.mp hinfix] at hne
    exact hne
  | cons => rfl

theorem persists_words {test : List α → Bool} (htest : Persists test) :
    Persists fun l => (words sep l).any test := by
  intro s t hst hs
  obtain ⟨w, hw, hfound⟩ := any_eq_true.mp hs
  obtain ⟨w', hw', hinfix⟩ := words_infix hst hw
  exact any_eq_true.mpr ⟨w', hw', htest hinfix hfound⟩

end

end Base

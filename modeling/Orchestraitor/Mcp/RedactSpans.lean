import Orchestraitor.Mcp.Redact

/-!
# What is redacted

`Redacts pre l ps`: the pieces `ps` of the text `l`, which comes after `pre`, hide every secret-shaped word
and every value of a bearer, in spans that do not end inside a word.  `Fits` says when one round of the loop
does its part; `redacts_iff` puts the rounds together.
-/

namespace Mcp
open Base List

/-- the pieces of `l`, after `pre`, replace every secret and every value of a bearer -/
structure Redacts (pre l : List Char) (ps : List (Piece Char)) : Prop where
  /-- no end of a redacted word remains -/
  ends : ∀ before span after, ps = before ++ .replaced span :: after → endsWord (source after) = true
  secrets : ∀ u v, l = u ++ v → WordStart (pre ++ u) → isSecretShaped v = true →
    Inside ps u.length (word v).length
  values : ∀ u v, l = u ++ v → WordStart (pre ++ u) → hasBearer v = true →
    Inside ps (u.length + (word v).length + (bearerGap (afterWord v)).length) (bearerValue (afterWord v)).length

theorem redacts_nil (pre : List Char) : Redacts pre [] [] := by
  refine ⟨fun before span after h => ?_, fun u v h _ hv => ?_, fun u v h _ hv => ?_⟩
  · exact absurd h (by simp)
  all_goals
    obtain ⟨-, rfl⟩ := append_eq_nil_iff.mp h.symm
    exact absurd hv (by decide)

section cons
variable {pre l : List Char} {p : Piece Char} {ps : List (Piece Char)}

/-- what the first piece has to do -/
structure Does (pre l : List Char) (p : Piece Char) (ps : List (Piece Char)) : Prop where
  ends : ∀ span, p = .replaced span → endsWord l = true
  secrets : ∀ u v, p.source ++ l = u ++ v → u.length < p.source.length → WordStart (pre ++ u) →
    isSecretShaped v = true → Inside (p :: ps) u.length (word v).length
  values : ∀ u v, p.source ++ l = u ++ v → u.length < p.source.length → WordStart (pre ++ u) →
    hasBearer v = true →
    Inside (p :: ps) (u.length + (word v).length + (bearerGap (afterWord v)).length)
      (bearerValue (afterWord v)).length

theorem bearerValue_pos {v : List Char} (h : hasBearer v = true) : 0 < (bearerValue (afterWord v)).length := by
  rw [hasBearer, Bool.and_eq_true] at h
  exact length_pos_iff.mpr (by simpa using h.2)

theorem word_pos {v : List Char} (h : isSecretShaped v = true) : 0 < (word v).length :=
  length_pos_iff.mpr (word_ne_nil_of_shaped h)

theorem redacts_cons (hsource : source ps = l) :
    Redacts pre (p.source ++ l) (p :: ps) ↔ Does pre l p ps ∧ Redacts (pre ++ p.source) l ps := by
  constructor
  · intro h
    refine ⟨⟨fun span hp => ?_, fun u v huv _ => h.secrets u v huv, fun u v huv _ => h.values u v huv⟩,
      fun before span after hps => ?_, fun u v huv hstart hv => ?_, fun u v huv hstart hv => ?_⟩
    · rw [← hsource]
      exact h.ends [] span ps (by rw [hp]; rfl)
    · exact h.ends (p :: before) span after (by rw [hps]; rfl)
    · have hin := h.secrets (p.source ++ u) v (by rw [huv, append_assoc])
        (by rwa [← append_assoc]) hv
      rwa [length_append, inside_skip (word_pos hv)] at hin
    · have hin := h.values (p.source ++ u) v (by rw [huv, append_assoc])
        (by rwa [← append_assoc]) hv
      rwa [length_append, Nat.add_assoc, Nat.add_assoc, inside_skip (bearerValue_pos hv),
        ← Nat.add_assoc] at hin
  · rintro ⟨hdoes, h⟩
    -- a place is in the first piece or after it
    have hplace : ∀ u v, p.source ++ l = u ++ v → u.length < p.source.length ∨
        ∃ u', u = p.source ++ u' ∧ l = u' ++ v :=
      fun u v huv => (Nat.lt_or_ge u.length p.source.length).imp id (split_of_length_le huv)
    refine ⟨fun before span after hps => ?_, fun u v huv hstart hv => ?_, fun u v huv hstart hv => ?_⟩
    · cases before with
      | nil =>
        obtain ⟨hp, rfl⟩ := cons.inj hps
        rw [hsource]
        exact hdoes.ends span hp
      | cons q before =>
        obtain ⟨-, rfl⟩ := cons.inj hps
        exact h.ends before span after rfl
    · rcases hplace u v huv with hlt | ⟨u', rfl, huv'⟩
      · exact hdoes.secrets u v huv hlt hstart hv
      · rw [length_append, inside_skip (word_pos hv)]
        exact h.secrets u' v huv' (by rwa [← append_assoc] at hstart) hv
    · rcases hplace u v huv with hlt | ⟨u', rfl, huv'⟩
      · exact hdoes.values u v huv hlt hstart hv
      · rw [length_append, Nat.add_assoc, Nat.add_assoc, inside_skip (bearerValue_pos hv),
          ← Nat.add_assoc]
        exact h.values u' v huv' (by rwa [← append_assoc] at hstart) hv

end cons

/-! ## one round -/

section round
variable {pre l : List Char} {c : Char} {ps : List (Piece Char)}

def starts (l : List Char) : Bool := hasBearer l || isSecretShaped l

theorem does_kept (h : starts (c :: l) = false) : Does pre l (.kept c) ps := by
  have hnil : ∀ {u v : List Char}, c :: l = u ++ v → u.length < 1 → v = c :: l := by
    intro u v huv hu
    obtain rfl := eq_nil_of_length_eq_zero (Nat.lt_one_iff.mp hu)
    exact huv.symm
  rw [starts, Bool.or_eq_false_iff] at h
  refine ⟨nofun, fun u v huv hu _ hv => ?_, fun u v huv hu _ hv => ?_⟩
  · rw [hnil huv hu, h.2] at hv
    cases hv
  · rw [hnil huv hu, h.1] at hv
    cases hv

variable {w v g z : List Char}

theorem wordStart_of_word (before : List Char) {u : List Char} (hw : ∀ c ∈ w, isDelimiter c = false)
    (hwl : w ++ l = u ++ v) (hu : u.length ≤ w.length) (hne : u ≠ []) : ¬ WordStart (before ++ u) := by
  obtain ⟨u', rfl, -⟩ := split_of_length_le hwl.symm hu
  obtain ⟨u, c, rfl⟩ := eq_nil_or_concat u |>.resolve_left hne
  rw [concat_eq_append, ← append_assoc]
  refine not_wordStart_concat (hw c ?_)
  simp

theorem does_shaped (hbearer : hasBearer l = false) : Does pre (afterWord l) (.replaced (word l)) ps := by
  have hnil : ∀ {u v : List Char}, word l ++ afterWord l = u ++ v → u.length < (word l).length →
      WordStart (pre ++ u) → u = [] ∧ v = l := by
    intro u v huv hu hstart
    have hu' : u = [] := by
      by_contra hne
      exact wordStart_of_word pre (fun c hc => of_mem_word hc) huv (Nat.le_of_lt hu) hne hstart
    subst hu'
    exact ⟨rfl, by rw [← word_append_afterWord l, huv]; rfl⟩
  refine ⟨fun span _ => endsWord_afterWord l, fun u v huv hu hstart hv => ?_, fun u v huv hu hstart hv => ?_⟩
  · obtain ⟨rfl, rfl⟩ := hnil huv hu hstart
    exact inside_cons.mpr (.inl ⟨_, rfl, by simp⟩)
  · obtain ⟨rfl, rfl⟩ := hnil huv hu hstart
    rw [hbearer] at hv
    cases hv

def nextValue (l : List Char) : List Char := (afterWord l).drop (bearerGap (afterWord l)).length

theorem bearer_eq (l : List Char) : ∃ rest, endsWord rest = true ∧
    nextValue l = bearerValue (afterWord l) ++ rest ∧
    l = word l ++ (bearerGap (afterWord l) ++ (bearerValue (afterWord l) ++ rest)) := by
  obtain ⟨rest, hafter, hends⟩ := exists_after (afterWord l)
  refine ⟨rest, hends, ?_, ?_⟩
  · show (afterWord l).drop (bearerGap (afterWord l)).length = _
    conv_lhs => arg 2; rw [hafter]
    rw [drop_left]
  · rw [← hafter, word_append_afterWord]

theorem word_nextValue (l : List Char) : word (nextValue l) = bearerValue (afterWord l) := by
  obtain ⟨rest, hends, hnext, -⟩ := bearer_eq l
  rw [hnext]
  exact word_append (fun c hc => of_mem_bearerValue hc) hends

theorem inside_start {m : List Char} (hps : redactPieces m = some ps) (hm : word m ≠ []) :
    Inside ps 0 (word m).length ↔ starts m = true := by
  cases m with
  | nil => exact absurd rfl hm
  | cons c m =>
    cases hstep : redactStep c m with
    | none =>
      rw [redactPieces_cons, hstep] at hps
      cases hps
    | some next =>
      obtain ⟨p, rest⟩ := next
      rw [redactPieces_cons_of hstep] at hps
      obtain ⟨ps', -, rfl⟩ := Option.map_eq_some_iff.mp hps
      unfold redactStep at hstep
      rw [starts]
      split at hstep
      · rename_i hbearer
        obtain ⟨⟨span, rest'⟩, hsplit, heq⟩ := Option.map_eq_some_iff.mp hstep
        obtain ⟨rfl, rfl⟩ := Prod.mk.inj heq
        obtain ⟨hsource, hbytes⟩ := splitBytes_eq_some.mp hsplit
        refine iff_of_true (inside_cons.mpr (.inl ⟨span, rfl, ?_⟩)) (by rw [hbearer]; rfl)
        have hlt : bytes (word (c :: m)) < bytes span := by
          have hvalue := bearerValue_pos hbearer
          have hle := length_le_bytes (bearerValue (afterWord (c :: m)))
          rw [hbytes, bearerSkip]
          omega
        have hlength := length_lt_of_bytes_lt ((word_append_afterWord (c :: m)).trans hsource) hlt
        omega
      · rename_i hbearer
        split at hstep
        · rename_i hshaped
          obtain ⟨rfl, rfl⟩ := Prod.mk.inj (Option.some.inj hstep)
          refine iff_of_true (inside_cons.mpr (.inl ⟨_, rfl, by simp⟩)) ?_
          rw [hshaped, Bool.or_true]
        · rename_i hshaped
          obtain ⟨rfl, rfl⟩ := Prod.mk.inj (Option.some.inj hstep)
          refine iff_of_false inside_kept ?_
          rw [Bool.eq_false_of_not_eq_true hbearer, Bool.eq_false_of_not_eq_true hshaped]
          decide

theorem inside_after_gap {m : List Char} (hg : ∀ c ∈ g, isWhitespace c = true)
    (hps : redactPieces (g ++ m) = some ps) (hm : word m ≠ []) :
    Inside ps g.length (word m).length ↔ starts m = true := by
  rw [redactPieces_gap hg] at hps
  obtain ⟨ps', hps', rfl⟩ := Option.map_eq_some_iff.mp hps
  rw [← inside_start hps' hm, ← Nat.add_zero g.length]
  exact inside_skip_kept (length_pos_iff.mpr hm)

theorem bearer_places {u x : List Char} (hw : ∀ c ∈ w, isDelimiter c = false)
    (hg : ∀ c ∈ g, isWhitespace c = true) (hv : ∀ c ∈ v, isDelimiter c = false)
    (heq : w ++ (g ++ (v ++ z)) = u ++ x) (hu : u.length < w.length + g.length + v.length)
    (hstart : WordStart (pre ++ u)) : u = [] ∨ endsWord x = true ∨ (u = w ++ g ∧ x = v ++ z) := by
  by_cases hnil : u = []
  · exact .inl hnil
  have hlong : w.length < u.length := by
    by_contra hle
    exact wordStart_of_word pre hw heq (Nat.le_of_not_lt hle) hnil hstart
  obtain ⟨u', rfl, heq'⟩ := split_of_length_le heq (Nat.le_of_lt hlong)
  rcases Nat.lt_or_ge u'.length g.length with hshort | hge
  · -- in the whitespace
    obtain ⟨g', rfl, rfl⟩ := split_of_length_le heq'.symm (Nat.le_of_lt hshort)
    cases g' with
    | nil => simp at hshort
    | cons c => exact .inr (.inl (isDelimiter_of_isWhitespace (hg c (by simp))))
  · obtain ⟨u'', rfl, heq''⟩ := split_of_length_le heq' hge
    by_cases hnil'' : u'' = []
    · subst hnil''
      exact .inr (.inr ⟨by rw [append_nil], heq''.symm⟩)
    · refine absurd ?_ (wordStart_of_word (pre ++ w ++ g) hv heq'' ?_ hnil'')
      · simpa only [append_assoc] using hstart
      · simp only [length_append] at hu
        omega

/-- when the round at a bearer does its part: the whitespace before its value has one byte per character, and
a value that is a bearer itself leaves no value behind; or the skip stops inside the whitespace -/
def Fits (pre l : List Char) : Prop :=
  hasBearer l = true →
    (bytes (bearerGap (afterWord l)) = (bearerGap (afterWord l)).length ∧
      (hasBearer (nextValue l) = true → starts (nextValue (nextValue l)) = true)) ∨
    (∃ g₁ g₂, bearerGap (afterWord l) = g₁ ++ g₂ ∧ g₂ ≠ [] ∧
      bytes g₁ = (bearerGap (afterWord l)).length + bytes (bearerValue (afterWord l)) ∧
      (WordStart pre → starts (nextValue l) = true))

theorem hasBearer_of_endsWord {x : List Char} (h : endsWord x = true) : hasBearer x = false := by
  rw [hasBearer, word_eq_nil h]
  rfl

/-- a text of a bearer, whitespace, its value and the rest -/
structure Bearer (l w g v z : List Char) : Prop where
  eq : l = w ++ (g ++ (v ++ z))
  word_eq : word l = w
  gap_eq : bearerGap (afterWord l) = g
  value_eq : bearerValue (afterWord l) = v
  next_eq : nextValue l = v ++ z
  word_next : word (v ++ z) = v
  after_next : afterWord (v ++ z) = z
  rest : endsWord z = true
  gap : ∀ c ∈ g, isWhitespace c = true
  gap_ne : g ≠ []
  value_ne : v ≠ []

theorem exists_bearer (h : hasBearer l = true) : ∃ w g v z, Bearer l w g v z := by
  obtain ⟨z, hends, hnext, heq⟩ := bearer_eq l
  have hvalue : bearerValue (afterWord l) ≠ [] := length_pos_iff.mp (bearerValue_pos h)
  have hword : word (bearerValue (afterWord l) ++ z) = bearerValue (afterWord l) :=
    word_append (fun c hc => of_mem_bearerValue hc) hends
  refine ⟨_, _, _, z, heq, rfl, rfl, rfl, hnext, hword, ?_, hends, fun c hc => of_mem_bearerGap hc, ?_, hvalue⟩
  · have happend := word_append_afterWord (bearerValue (afterWord l) ++ z)
    rw [hword] at happend
    exact append_cancel_left happend
  · -- the word before ends at a delimiter, so the value does not follow at once
    intro hgap
    have hafter : afterWord l = bearerValue (afterWord l) ++ z := by
      rw [hgap] at heq
      exact append_cancel_left ((word_append_afterWord l).trans heq)
    have hword' := word_eq_nil (endsWord_afterWord l)
    rw [hafter, hword] at hword'
    exact hvalue hword'

theorem Bearer.word_mem (h : Bearer l w g v z) : ∀ c ∈ w, isDelimiter c = false := by
  intro c hc
  rw [← h.word_eq] at hc
  exact of_mem_word hc

theorem Bearer.value_mem (h : Bearer l w g v z) : ∀ c ∈ v, isDelimiter c = false := by
  intro c hc
  rw [← h.value_eq] at hc
  exact of_mem_bearerValue hc

theorem Bearer.wordStart_next (h : Bearer l w g v z) : WordStart (pre ++ (w ++ g)) := by
  intro c hc
  obtain ⟨g', d, hg⟩ := eq_nil_or_concat g |>.resolve_left h.gap_ne
  rw [hg, concat_eq_append, ← append_assoc, ← append_assoc, getLast?_concat] at hc
  obtain rfl := Option.some.inj hc
  exact isDelimiter_of_isWhitespace (h.gap d (by rw [hg]; simp))

theorem inside_next (hafter : afterWord (v ++ z) = z) (hbearer : hasBearer (v ++ z) = true)
    (hps : redactPieces z = some ps) (span : List Char) :
    Inside (.replaced span :: ps) (span.length + (bearerGap z).length) (bearerValue z).length ↔
      starts (nextValue (v ++ z)) = true := by
  have hpos := bearerValue_pos hbearer
  have hword := word_nextValue (v ++ z)
  obtain ⟨rest, hz, -⟩ := exists_after z
  have hnext : nextValue (v ++ z) = bearerValue z ++ rest := by
    show (afterWord (v ++ z)).drop (bearerGap (afterWord (v ++ z))).length = _
    rw [hafter]
    conv_lhs => arg 2; rw [hz]
    rw [drop_left]
  rw [hafter] at hpos hword
  rw [show span.length = (Piece.replaced span).source.length from rfl, inside_skip hpos, ← hword]
  refine inside_after_gap (fun c hc => of_mem_bearerGap hc) ?_ ?_
  · rw [hnext, ← hz]
    exact hps
  · rw [hword]
    exact length_pos_iff.mp hpos

theorem does_bearer (h : Bearer l w g v z) (hps : redactPieces z = some ps) :
    Does pre z (.replaced (w ++ (g ++ v))) ps ↔
      (hasBearer (v ++ z) = true → starts (nextValue (v ++ z)) = true) := by
  have hsource : (w ++ (g ++ v)) ++ z = w ++ (g ++ (v ++ z)) := by simp only [append_assoc]
  have hlength : (w ++ (g ++ v)).length = (w ++ g).length + v.length := by
    simp only [length_append]
    omega
  constructor
  · intro hdoes hbearer
    have hlt : (w ++ g).length < (w ++ (g ++ v)).length := by
      have := length_pos_iff.mpr h.value_ne
      omega
    have hin := hdoes.values (w ++ g) (v ++ z) (by simp [Piece.source]) hlt h.wordStart_next hbearer
    rw [h.word_next, h.after_next, ← hlength] at hin
    exact (inside_next h.after_next hbearer hps _).mp hin
  · intro hnext
    refine ⟨fun _ _ => h.rest, fun u x hux hu hstart hx => ?_, fun u x hux hu hstart hx => ?_⟩
    all_goals
      have hlt : u.length < w.length + g.length + v.length := by
        have hu' : u.length < (w ++ (g ++ v)).length := hu
        rw [hlength, length_append] at hu'
        exact hu'
      rcases bearer_places h.word_mem h.gap h.value_mem (hsource.symm.trans hux) hlt hstart with
        rfl | hends | ⟨rfl, rfl⟩
    · obtain rfl : l = x := h.eq.trans (hsource.symm.trans hux)
      refine inside_cons.mpr (.inl ⟨_, rfl, ?_⟩)
      rw [h.word_eq, length_nil, length_append]
      omega
    · rw [isSecretShaped_of_word_nil (word_eq_nil hends)] at hx
      cases hx
    · refine inside_cons.mpr (.inl ⟨_, rfl, ?_⟩)
      rw [h.word_next, hlength]
    · obtain rfl : l = x := h.eq.trans (hsource.symm.trans hux)
      refine inside_cons.mpr (.inl ⟨_, rfl, ?_⟩)
      rw [h.word_eq, h.gap_eq, h.value_eq, hlength, length_nil, length_append]
      omega
    · rw [hasBearer_of_endsWord hends] at hx
      cases hx
    · rw [h.word_next, h.after_next, ← hlength]
      exact (inside_next h.after_next hx hps _).mpr (hnext hx)

theorem does_short {g₁ g₂ : List Char} (h : Bearer l w (g₁ ++ g₂) v z) (hg2 : g₂ ≠ [])
    (hbearer : hasBearer l = true) (hps : redactPieces (g₂ ++ (v ++ z)) = some ps) :
    Does pre (g₂ ++ (v ++ z)) (.replaced (w ++ g₁)) ps ↔ (WordStart pre → starts (v ++ z) = true) := by
  have hsource : (w ++ g₁) ++ (g₂ ++ (v ++ z)) = w ++ ((g₁ ++ g₂) ++ (v ++ z)) := by
    simp only [append_assoc]
  have hvalue : ∀ {n : Nat}, Inside (.replaced (w ++ g₁) :: ps) ((w ++ g₁).length + n) v.length ↔
      Inside ps n v.length := by
    intro n
    exact inside_skip (p := .replaced (w ++ g₁)) (length_pos_iff.mpr h.value_ne)
  have hstarts : Inside ps g₂.length v.length ↔ starts (v ++ z) = true := by
    have hin := inside_after_gap (fun c hc => h.gap c (mem_append_right _ hc)) hps
      (by rw [h.word_next]; exact h.value_ne)
    rwa [h.word_next] at hin
  have hplace : w.length + (g₁ ++ g₂).length = (w ++ g₁).length + g₂.length := by
    simp only [length_append]
    omega
  constructor
  · intro hdoes _
    have hlt : ([] : List Char).length < (w ++ g₁).length := by
      have hw : w ≠ [] := by
        rw [← h.word_eq]
        exact isBearer_ne_nil ((Bool.and_eq_true _ _).mp hbearer).1
      rw [length_append, length_nil]
      have := length_pos_iff.mpr hw
      omega
    have hin := hdoes.values [] l (by rw [h.eq]; exact hsource) hlt (by rwa [append_nil]) hbearer
    rw [h.word_eq, h.gap_eq, h.value_eq, length_nil, Nat.zero_add, hplace, hvalue] at hin
    exact hstarts.mp hin
  · intro hstart0
    have hends : endsWord (g₂ ++ (v ++ z)) = true := by
      cases g₂ with
      | nil => exact absurd rfl hg2
      | cons c => exact isDelimiter_of_isWhitespace (h.gap c (by simp))
    refine ⟨fun _ _ => hends, fun u x hux hu hstart hx => ?_, fun u x hux hu hstart hx => ?_⟩
    all_goals
      have hu' : u.length < (w ++ g₁).length := hu
      have hlt : u.length < w.length + (g₁ ++ g₂).length + v.length := by
        rw [length_append] at hu' ⊢
        omega
      rcases bearer_places h.word_mem h.gap h.value_mem (hsource.symm.trans hux) hlt hstart with
        rfl | hends | ⟨rfl, rfl⟩
    · obtain rfl : l = x := h.eq.trans (hsource.symm.trans hux)
      refine inside_cons.mpr (.inl ⟨_, rfl, ?_⟩)
      rw [h.word_eq, length_nil, length_append]
      omega
    · rw [isSecretShaped_of_word_nil (word_eq_nil hends)] at hx
      cases hx
    · simp only [length_append] at hu'
      omega
    · obtain rfl : l = x := h.eq.trans (hsource.symm.trans hux)
      rw [h.word_eq, h.gap_eq, h.value_eq, length_nil, Nat.zero_add, hplace, hvalue]
      exact hstarts.mpr (hstart0 (by rwa [append_nil] at hstart))
    · rw [hasBearer_of_endsWord hends] at hx
      cases hx
    · simp only [length_append] at hu'
      omega

/-- a bearer whose whitespace has more bytes than characters, and a skip past it -/
theorem not_fits_of_long {span rest : List Char} (h : Bearer l w g v z)
    (hbearer : hasBearer l = true) (hg : bytes g ≠ g.length) (hspan : l = span ++ rest)
    (hbytes : bytes span = bearerSkip l) (hlong : (w ++ g).length ≤ span.length) : ¬ Fits pre l := by
  intro hfits
  rcases hfits hbearer with ⟨hone, -⟩ | ⟨g₁, g₂, hgap, hg2, hbytes1, -⟩
  · rw [h.gap_eq] at hone
    exact hg hone
  · have hsplit : splitBytes (bearerSkip l) l = some (w ++ g₁, g₂ ++ (v ++ z)) := by
      rw [splitBytes_eq_some]
      refine ⟨?_, ?_⟩
      · rw [h.eq, ← h.gap_eq, hgap]
        simp only [append_assoc]
      · rw [bytes_append, hbytes1, bearerSkip, h.word_eq, Nat.add_assoc]
    rw [splitBytes_eq_some.mpr ⟨hspan, hbytes⟩] at hsplit
    obtain ⟨rfl, -⟩ := Prod.mk.inj (Option.some.inj hsplit)
    rw [← h.gap_eq, hgap] at hlong
    simp only [length_append] at hlong
    have := length_pos_iff.mpr hg2
    omega

theorem does_bearer_iff {span rest : List Char} (hbearer : hasBearer l = true)
    (hsplit : splitBytes (bearerSkip l) l = some (span, rest)) (hps : redactPieces rest = some ps) :
    Does pre rest (.replaced span) ps ↔ Fits pre l := by
  obtain ⟨w, g, v, z, h⟩ := exists_bearer hbearer
  have hskip : bearerSkip l = bytes w + g.length + bytes v := by
    rw [bearerSkip, h.word_eq, h.gap_eq, h.value_eq]
  obtain ⟨hspan, hbytes⟩ := splitBytes_eq_some.mp hsplit
  have hvpos : 0 < bytes v := Nat.lt_of_lt_of_le (length_pos_iff.mpr h.value_ne) (length_le_bytes v)
  by_cases hg : bytes g = g.length
  · -- one byte per character
    have hsplit' : splitBytes (bearerSkip l) l = some (w ++ (g ++ v), z) := by
      rw [splitBytes_eq_some, bytes_append, bytes_append, hg, hskip, Nat.add_assoc]
      exact ⟨by rw [h.eq]; simp only [append_assoc], rfl⟩
    rw [hsplit] at hsplit'
    obtain ⟨rfl, rfl⟩ := Prod.mk.inj (Option.some.inj hsplit')
    rw [does_bearer h hps]
    constructor
    · intro _ _
      refine .inl ⟨by rw [h.gap_eq]; exact hg, ?_⟩
      rwa [h.next_eq]
    · intro hfits
      rcases hfits hbearer with ⟨-, hnext⟩ | ⟨g₁, g₂, hgap, -, hbytes1, -⟩
      · rwa [h.next_eq] at hnext
      · rw [h.gap_eq] at hgap hbytes1
        rw [hgap, bytes_append] at hg
        rw [h.value_eq, hgap] at hbytes1
        omega
  · have hmore : g.length < bytes g := Nat.lt_of_le_of_ne (length_le_bytes g) (Ne.symm hg)
    rcases Nat.lt_or_ge span.length (w ++ g).length with hshort | hlong
    · -- the skip stops inside the whitespace
      have hw : w.length < span.length := by
        refine length_lt_of_bytes_lt (h.eq.symm.trans hspan) ?_
        omega
      obtain ⟨g₁, rfl, hrest⟩ := split_of_length_le (h.eq.symm.trans hspan) (Nat.le_of_lt hw)
      simp only [length_append] at hshort
      obtain ⟨g₂, rfl, rfl⟩ := split_of_length_le hrest.symm (by omega)
      have hg2 : g₂ ≠ [] := by
        rintro rfl
        simp at hshort
      rw [does_short h hg2 hbearer hps]
      constructor
      · intro _ _
        refine .inr ⟨g₁, g₂, h.gap_eq, hg2, ?_, by rwa [h.next_eq]⟩
        rw [bytes_append] at hbytes
        rw [h.gap_eq, h.value_eq]
        omega
      · intro hfits
        rcases hfits hbearer with ⟨hone, -⟩ | ⟨-, -, -, -, -, hstart⟩
        · rw [h.gap_eq] at hone
          exact absurd hone hg
        · rwa [h.next_eq] at hstart
    · -- the skip stops inside the value
      refine iff_of_false ?_ (not_fits_of_long h hbearer hg hspan hbytes hlong)
      intro hdoes
      have heq := h.eq.symm.trans hspan
      rw [← append_assoc] at heq
      obtain ⟨v1, rfl, hrest⟩ := split_of_length_le heq hlong
      have hlt : v1.length < v.length := by
        refine length_lt_of_bytes_lt hrest.symm ?_
        rw [bytes_append, bytes_append] at hbytes
        omega
      obtain ⟨v2, rfl, rfl⟩ := split_of_length_le hrest.symm (Nat.le_of_lt hlt)
      cases v2 with
      | nil => simp at hlt
      | cons c =>
        have hends : isDelimiter c = true := hdoes.ends _ rfl
        rw [h.value_mem c (by simp)] at hends
        cases hends

theorem exists_split (hfits : Fits pre l) (hbearer : hasBearer l = true) :
    ∃ span rest, splitBytes (bearerSkip l) l = some (span, rest) := by
  obtain ⟨w, g, v, z, h⟩ := exists_bearer hbearer
  rcases hfits hbearer with ⟨hone, -⟩ | ⟨g₁, g₂, hgap, -, hbytes, -⟩
  · refine ⟨w ++ (g ++ v), z, splitBytes_eq_some.mpr ⟨by rw [h.eq]; simp only [append_assoc], ?_⟩⟩
    rw [h.gap_eq] at hone
    rw [bearerSkip, h.word_eq, h.gap_eq, h.value_eq, bytes_append, bytes_append, hone, Nat.add_assoc]
  · refine ⟨w ++ g₁, g₂ ++ (v ++ z), splitBytes_eq_some.mpr ⟨?_, ?_⟩⟩
    · rw [h.eq, ← h.gap_eq, hgap]
      simp only [append_assoc]
    · rw [bytes_append, hbytes, bearerSkip, h.word_eq, Nat.add_assoc]

theorem does_iff_fits {p : Piece Char} {rest : List Char} (hstep : redactStep c l = some (p, rest))
    (hps : redactPieces rest = some ps) : Does pre rest p ps ↔ Fits pre (c :: l) := by
  unfold redactStep at hstep
  split at hstep
  · rename_i hbearer
    obtain ⟨⟨span, rest'⟩, hsplit, heq⟩ := Option.map_eq_some_iff.mp hstep
    obtain ⟨rfl, rfl⟩ := Prod.mk.inj heq
    exact does_bearer_iff hbearer hsplit hps
  · rename_i hbearer
    refine iff_of_true ?_ fun h => absurd h hbearer
    split at hstep
    · obtain ⟨rfl, rfl⟩ := Prod.mk.inj (Option.some.inj hstep)
      exact does_shaped (Bool.eq_false_of_not_eq_true hbearer)
    · rename_i hshaped
      obtain ⟨rfl, rfl⟩ := Prod.mk.inj (Option.some.inj hstep)
      refine does_kept ?_
      rw [starts, Bool.eq_false_of_not_eq_true hbearer, Bool.eq_false_of_not_eq_true hshaped]
      rfl

end round

/-! ## all rounds -/

def Round (s t : List Char × List Char) : Prop :=
  ∃ c l p, s.2 = c :: l ∧ redactStep c l = some (p, t.2) ∧ t.1 = s.1 ++ p.source

/-- the loop gets there -/
def Reaches : List Char × List Char → List Char × List Char → Prop := Relation.ReflTransGen Round

theorem reaches_nil {pre : List Char} {s : List Char × List Char} (h : Reaches (pre, []) s) : s = (pre, []) := by
  rcases Relation.ReflTransGen.cases_head h with rfl | ⟨t, ⟨c, l, p, hnil, -⟩, -⟩
  · rfl
  · cases hnil

theorem reaches_cons {pre l rest : List Char} {c : Char} {p : Piece Char}
    (hstep : redactStep c l = some (p, rest)) {s : List Char × List Char} :
    Reaches (pre, c :: l) s ↔ s = (pre, c :: l) ∨ Reaches (pre ++ p.source, rest) s := by
  constructor
  · intro h
    rcases Relation.ReflTransGen.cases_head h with rfl | ⟨t, ⟨c', l', p', heq, hstep', hpre⟩, hrest⟩
    · exact .inl rfl
    · obtain ⟨rfl, rfl⟩ := cons.inj heq
      rw [hstep] at hstep'
      obtain ⟨rfl, hrest'⟩ := Prod.mk.inj (Option.some.inj hstep')
      obtain rfl : (pre ++ p.source, rest) = t := Prod.ext hpre.symm hrest'
      exact .inr hrest
  · rintro (rfl | h)
    · exact .refl
    · exact .head ⟨c, l, p, rfl, hstep, rfl⟩ h

theorem redacts_iff (pre l : List Char) :
    (∃ ps, redactPieces l = some ps ∧ Redacts pre l ps) ↔ ∀ s, Reaches (pre, l) s → Fits s.1 s.2 := by
  induction hn : l.length using Nat.strong_induction_on generalizing pre l with
  | _ n ih =>
    cases l with
    | nil =>
      refine iff_of_true ⟨[], rfl, redacts_nil pre⟩ fun s hs => ?_
      rw [reaches_nil hs]
      intro hbearer
      have hnil : hasBearer [] = true := hbearer
      exact absurd hnil (by decide)
    | cons c l =>
      cases hstep : redactStep c l with
      | none =>
        refine iff_of_false ?_ fun h => ?_
        · rintro ⟨ps, hps, -⟩
          rw [redactPieces_cons, hstep] at hps
          cases hps
        · unfold redactStep at hstep
          split at hstep
          · rename_i hbearer
            obtain ⟨span, rest, hsplit⟩ := exists_split (h (pre, c :: l) .refl) hbearer
            rw [hsplit] at hstep
            cases hstep
          · split at hstep <;> cases hstep
      | some next =>
        obtain ⟨p, rest⟩ := next
        have hlength := redactStep_length hstep
        rw [length_cons] at hn
        have ih' := ih rest.length (by omega) (pre ++ p.source) rest rfl
        have hsource := (redactStep_source hstep).1
        constructor
        · rintro ⟨ps, hps, hredacts⟩ s hs
          rw [redactPieces_cons_of hstep] at hps
          obtain ⟨ps', hps', rfl⟩ := Option.map_eq_some_iff.mp hps
          rw [hsource, redacts_cons (source_redactPieces hps')] at hredacts
          rcases (reaches_cons hstep).mp hs with rfl | hs
          · exact (does_iff_fits hstep hps').mp hredacts.1
          · exact ih'.mp ⟨ps', hps', hredacts.2⟩ s hs
        · intro h
          obtain ⟨ps', hps', hredacts⟩ := ih'.mpr fun s hs => h s ((reaches_cons hstep).mpr (.inr hs))
          refine ⟨p :: ps', by rw [redactPieces_cons_of hstep, hps']; rfl, ?_⟩
          rw [hsource, redacts_cons (source_redactPieces hps')]
          exact ⟨(does_iff_fits hstep hps').mpr (h (pre, c :: l) .refl), hredacts⟩

/-- **When redaction works.**  It returns the text with every secret-shaped word and every value of a bearer
in a replaced span, none of which ends inside a word, exactly if every round at a bearer does its part. -/
theorem redact_secrets_iff (text : List Char) :
    (∃ ps, redactSecrets text = some (shown "[REDACTED]".toList ps, replacedCount ps) ∧
      redactPieces text = some ps ∧ source ps = text ∧ Redacts [] text ps) ↔
    ∀ s, Reaches ([], text) s → Fits s.1 s.2 := by
  rw [← redacts_iff]
  constructor
  · rintro ⟨ps, -, hps, -, hredacts⟩
    exact ⟨ps, hps, hredacts⟩
  · rintro ⟨ps, hps, hredacts⟩
    exact ⟨ps, by rw [redactSecrets, hps]; rfl, hps, source_redactPieces hps, hredacts⟩

/-- a no-break space has two bytes: the last letter of the value stays, or the slice panics; and the value of
a bearer that is itself a value stays -/
theorem bearer_values_leaked :
    redactSecrets "Bearer\u00a0hunter2".toList = some ("[REDACTED]2".toList, 1) ∧
    (∀ ps, redactPieces "Bearer\u00a0hunter2".toList = some ps →
      ¬ Redacts [] "Bearer\u00a0hunter2".toList ps) ∧
    redactSecrets "Bearer\u00a0caf\u00e9".toList = none ∧
    redactSecrets "Bearer Bearer hunter2".toList = some ("[REDACTED] hunter2".toList, 1) := by
  refine ⟨by decide +kernel, fun ps hps hredacts => ?_, by decide +kernel, by decide +kernel⟩
  have hpieces : redactPieces "Bearer\u00a0hunter2".toList =
      some ([] ++ .replaced "Bearer\u00a0hunter".toList :: [.kept '2']) := by decide +kernel
  have hends := hredacts.ends [] "Bearer\u00a0hunter".toList [.kept '2']
    (Option.some.inj (hps.symm.trans hpieces))
  exact absurd hends (by decide)

end Mcp

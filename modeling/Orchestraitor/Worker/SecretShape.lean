import Orchestraitor.Base.Scan

/-!
# The secret-shape heuristic

`contains_secret_shaped` of the core crate, detector by detector.  Each of them either looks for a marker,
for a marker with something after it, or for a run of characters; none of the three is undone by text
around it.
-/

namespace Worker
open Base List

def githubShapes : List String := ["ghp_", "gho_", "ghu_", "ghs_", "ghr_", "github_pat_"]

def credentialHeaders : List String := ["authorization:", "x-api-key:", "x-goog-api-key:"]

def isKeyChar (c : Char) : Bool := c.isAlphanum || c == '_' || c == '-'

def longKey (rest : List Char) : Bool := 16 ≤ (rest.takeWhile isKeyChar).length

def isAuthSchemeWord (word : List Char) : Bool :=
  ["basic", "bearer", "token", "digest", "negotiate", "ntlm", "oauth"].any fun scheme =>
    word == scheme.toList

def isLead (c : Char) : Bool := isWhitespace c || c == '"' || c == ':'

def endsWord (c : Char) : Bool := isWhitespace c || c == '"' || c == '\''

def credential : List (List Char) → Option (List Char)
  | first :: rest => if isAuthSchemeWord first then rest.head? else some first
  | [] => none

def longToken (rest : List Char) : Bool :=
  (credential (words endsWord (rest.dropWhile isLead))).any (16 ≤ ·.length)

def longTokenAfter (marker : String) (lower : List Char) : Bool :=
  (matchRests marker.toList lower).any longToken

def isHexdigit (c : Char) : Bool := c.isDigit || ('a' ≤ c && c ≤ 'f') || ('A' ≤ c && c ≤ 'F')

def hexRunsFrom : Nat → List Char → List Nat
  | current, [] => if 0 < current then [current] else []
  | current, c :: l =>
    if isHexdigit c then hexRunsFrom (current + 1) l
    else if 0 < current then current :: hexRunsFrom 0 l
    else hexRunsFrom 0 l

variable (value : List Char)

def hexRuns : List Nat := hexRunsFrom 0 value

def inBase64Alphabet (c : Char) : Bool := c.isAlphanum || ['+', '/', '=', '-', '_'].contains c

def isLongBase64RunFrom (runChars : Nat) (hasLetter hasDigit : Bool) : List Char → Bool
  | [] => false
  | c :: l =>
    let run := if inBase64Alphabet c then (runChars + 1, hasLetter || c.isAlpha, hasDigit || c.isDigit)
      else (0, false, false)
    if 43 ≤ run.1 && run.2.1 && run.2.2 then true else isLongBase64RunFrom run.1 run.2.1 run.2.2 l

def isLongBase64Run : Bool := isLongBase64RunFrom 0 false false value

def containsSecretShapedIn : Bool :=
  let lower := value.map Char.toLower
  contains "secret://".toList lower ||
  githubShapes.any (fun shape => contains shape.toList lower) ||
  (matchRests "sk-".toList lower).any longKey ||
  (contains "bearer".toList lower && longTokenAfter "bearer" lower) ||
  credentialHeaders.any (fun marker => longTokenAfter marker lower) ||
  (hexRuns value).any (32 ≤ ·) ||
  isLongBase64Run value

def containsSecretShaped (value : String) : Bool := containsSecretShapedIn value.toList

/-! ## what follows a marker -/

theorem longKey_append (rest more : List Char) (h : longKey rest = true) : longKey (rest ++ more) = true := by
  rw [longKey, decide_eq_true_iff] at h ⊢
  have hle : (rest.takeWhile isKeyChar).length ≤ ((rest ++ more).takeWhile isKeyChar).length := by
    rw [takeWhile_append]
    split_ifs with hall
    · rw [length_append, hall]
      exact Nat.le_add_right _ _
    · exact le_rfl
  exact le_trans h hle

theorem not_scheme_of_long {word : List Char} (h : 16 ≤ word.length) : isAuthSchemeWord word = false := by
  rw [isAuthSchemeWord, any_eq_false]
  intro scheme _ heq
  have hlen : scheme.toList.length < 16 := by
    clear heq
    revert scheme
    decide +kernel
  rw [beq_iff_eq.mp heq] at h
  omega

theorem credential_prefix {ws ws' : List (List Char)} (h : ws <+: ws') {word : List Char}
    (hword : credential ws = some word) : credential ws' = some word := by
  obtain ⟨more, rfl⟩ := h
  cases ws with
  | nil => cases hword
  | cons _ rest =>
    rw [cons_append]
    rw [credential] at hword ⊢
    split_ifs at hword ⊢ with hscheme
    · cases rest with
      | nil => cases hword
      | cons => exact hword
    · exact hword

theorem credential_longer {ws ws' : List (List Char)} {w more word : List Char}
    (hword : credential (ws ++ [w]) = some word) (hlong : 16 ≤ word.length) :
    ∃ word', credential (ws ++ (w ++ more) :: ws') = some word' ∧ 16 ≤ word'.length := by
  have hmore : w.length ≤ (w ++ more).length := by simp
  cases ws with
  | nil =>
    have hw : isAuthSchemeWord w = false ∧ w = word := by
      simpa [credential] using hword
    obtain ⟨-, rfl⟩ := hw
    have hlonger := le_trans hlong hmore
    refine ⟨w ++ more, ?_, hlonger⟩
    simp [credential, not_scheme_of_long hlonger]
  | cons _ rest =>
    rw [cons_append] at hword ⊢
    rw [credential] at hword ⊢
    split_ifs at hword ⊢ with hscheme
    · cases rest with
      | nil =>
        obtain rfl : w = word := Option.some.inj hword
        exact ⟨w ++ more, rfl, le_trans hlong hmore⟩
      | cons => exact ⟨word, hword, hlong⟩
    · exact ⟨word, hword, hlong⟩

theorem longToken_append (rest more : List Char) (h : longToken rest = true) :
    longToken (rest ++ more) = true := by
  unfold longToken at h ⊢
  obtain ⟨word, hword, hlong⟩ := (Option.any_eq_true _ _).mp h
  have hlong : 16 ≤ word.length := of_decide_eq_true hlong
  have hstart : rest.dropWhile isLead ≠ [] := by
    intro hnil
    rw [hnil] at hword
    cases hword
  have hdrop : (rest ++ more).dropWhile isLead = rest.dropWhile isLead ++ more := by
    rw [dropWhile_append]
    simp [hstart]
  rw [hdrop]
  obtain hprefix | ⟨ws, w, extra, ws', hws, hws'⟩ := words_append endsWord (rest.dropWhile isLead) more
  · exact (Option.any_eq_true _ _).mpr ⟨word, credential_prefix hprefix hword, decide_eq_true hlong⟩
  · rw [hws] at hword
    rw [hws']
    obtain ⟨word', hword', hlong'⟩ := credential_longer hword hlong
    exact (Option.any_eq_true _ _).mpr ⟨word', hword', decide_eq_true hlong'⟩

theorem persists_longTokenAfter {marker : String} (hmarker : marker.toList ≠ [])
    (h : Unbordered marker.toList) : Persists (longTokenAfter marker) :=
  persists_matchRests hmarker h longToken_append

/-! ## runs -/

theorem hexRunsFrom_eq (current : List Char) (l : List Char) : hexRunsFrom current.length l =
      (((l.splitOnP fun c => !isHexdigit c).modifyHead (current ++ ·)).filter
        (! ·.isEmpty)).map length := by
  induction l generalizing current with
  | nil =>
    cases current with
    | nil => rfl
    | cons => simp [hexRunsFrom]
  | cons c l ih =>
    rw [hexRunsFrom, splitOnP_cons_eq_if_modifyHead]
    obtain ⟨p, ps, hps⟩ := splitOnP_eq_cons (fun c => !isHexdigit c) l
    cases hhex : isHexdigit c with
    | true =>
      have hnext := ih (current ++ [c])
      rw [hps] at hnext ⊢
      simpa using hnext
    | false =>
      have hnext := ih []
      rw [hps] at hnext ⊢
      cases current with
      | nil | cons => simpa using hnext

theorem hexRuns_eq : hexRuns value = (words (fun c => !isHexdigit c) value).map length := by
  have h := hexRunsFrom_eq [] value
  obtain ⟨p, ps, hps⟩ := splitOnP_eq_cons (fun c => !isHexdigit c) value
  rw [words]
  rw [hps] at h ⊢
  exact h

def encodedKey (run : List Char) : Bool := 43 ≤ run.length && run.any Char.isAlpha && run.any Char.isDigit

theorem persists_encodedKey : Persists encodedKey := by
  intro s t hst h
  simp only [encodedKey, Bool.and_eq_true, decide_eq_true_iff, any_eq_true] at h ⊢
  obtain ⟨⟨hlen, x, hx, halpha⟩, y, hy, hdigit⟩ := h
  exact ⟨⟨le_trans hlen hst.length_le, x, hst.subset hx, halpha⟩, y, hst.subset hy, hdigit⟩

theorem isLongBase64RunFrom_eq (run l : List Char) (hrun : encodedKey run = false) :
    isLongBase64RunFrom run.length (run.any Char.isAlpha) (run.any Char.isDigit) l =
      ((l.splitOnP fun c => !inBase64Alphabet c).modifyHead (run ++ ·)).any encodedKey := by
  induction l generalizing run with
  | nil => simp [isLongBase64RunFrom, hrun]
  | cons c l ih =>
    rw [isLongBase64RunFrom, splitOnP_cons_eq_if_modifyHead]
    obtain ⟨p, ps, hps⟩ := splitOnP_eq_cons (fun c => !inBase64Alphabet c) l
    cases halpha : inBase64Alphabet c with
    | false =>
      have hnext := ih [] rfl
      rw [hps] at hnext ⊢
      simpa [hrun] using hnext
    | true =>
      have hkey : encodedKey (run ++ [c]) = (43 ≤ run.length + 1 && (run.any Char.isAlpha || c.isAlpha) &&
          (run.any Char.isDigit || c.isDigit) : Bool) := by
        simp [encodedKey]
      rw [hps]
      simp only [if_true, Bool.not_true, Bool.false_eq_true, if_false, ← hkey]
      split_ifs with hfound
      · -- the scan stops inside the run, which is only longer as a whole
        have hwhole : encodedKey (run ++ c :: p) = true :=
          persists_encodedKey (List.IsPrefix.isInfix ⟨p, by simp⟩) hfound
        simp [hwhole]
      · have hnext := ih (run ++ [c]) (Bool.eq_false_iff.mpr hfound)
        rw [hps] at hnext
        simpa [modifyHead] using hnext

theorem isLongBase64Run_eq :
    isLongBase64Run value = (words (fun c => !inBase64Alphabet c) value).any encodedKey := by
  have h := isLongBase64RunFrom_eq [] value rfl
  rw [words, any_filter]
  have hnonempty : (fun run : List Char => !run.isEmpty && encodedKey run) = encodedKey := by
    funext run
    cases run <;> rfl
  rw [hnonempty]
  obtain ⟨p, ps, hps⟩ := splitOnP_eq_cons (fun c => !inBase64Alphabet c) value
  rw [hps] at h ⊢
  exact h

theorem persists_longEnough (n : Nat) : Persists fun run : List Char => decide (n ≤ run.length) :=
  fun _ _ hst h => decide_eq_true (le_trans (of_decide_eq_true h) hst.length_le)

/-! ## the heuristic -/

theorem persists_containsSecretShapedIn : Persists containsSecretShapedIn := by
  have hmarkers : ∀ marker ∈ "bearer" :: credentialHeaders, Persists (longTokenAfter marker) := by
    intro marker _
    have hshape : marker.toList ≠ [] ∧ Unbordered marker.toList := by
      revert marker
      decide +kernel
    exact persists_longTokenAfter hshape.1 hshape.2
  have hkeys : Persists fun l => (matchRests "sk-".toList l).any longKey :=
    persists_matchRests (by decide) (by decide) longKey_append
  have hlower : Persists fun lower =>
      contains "secret://".toList lower ||
      githubShapes.any (fun shape => contains shape.toList lower) ||
      (matchRests "sk-".toList lower).any longKey ||
      (contains "bearer".toList lower && longTokenAfter "bearer" lower) ||
      credentialHeaders.any (fun marker => longTokenAfter marker lower) := by
    refine Persists.or (Persists.or (Persists.or (Persists.or (persists_contains _) ?_) hkeys) ?_) ?_
    · exact persists_any fun shape _ => persists_contains shape.toList
    · exact (persists_contains _).and (hmarkers _ mem_cons_self)
    · exact persists_any fun marker hmarker => hmarkers marker (mem_cons_of_mem _ hmarker)
  have hhex : Persists fun value => (hexRuns value).any (32 ≤ ·) := by
    have h := persists_words (fun c => !isHexdigit c) (persists_longEnough 32)
    intro s t hst hs
    simp only [hexRuns_eq, any_map] at hs ⊢
    exact h hst hs
  have hbase64 : Persists isLongBase64Run := by
    have h := persists_words (fun c => !inBase64Alphabet c) persists_encodedKey
    intro s t hst hs
    rw [isLongBase64Run_eq] at hs ⊢
    exact h hst hs
  exact ((hlower.comp_map Char.toLower).or hhex).or hbase64

/-- No text around a secret-shaped one hides it. -/
theorem surrounding_text_hides_nothing (p s q : String) (h : containsSecretShaped s = true) :
    containsSecretShaped (p ++ s ++ q) = true := by
  refine persists_containsSecretShapedIn ?_ h
  rw [String.toList_append, String.toList_append]
  exact infix_append p.toList s.toList q.toList

theorem surrounding_text_hides_nothing_header :
    containsSecretShaped ("curl -H 'X-Authorization: " ++ "Authorization: Basic dXNlcjpwYXNzd29y" ++ "ZA=='")
      = true :=
  surrounding_text_hides_nothing _ _ _ (by decide +kernel)

end Worker

import Orchestraitor.Base.Bytes
import Orchestraitor.Base.Prim
import Orchestraitor.Base.Spans

/-!
# Redacting secrets (`ref_expansion.rs`)

`redact_secrets` goes through the text: at each place it looks at the word that starts there.  A `bearer` is
replaced together with its value on the same line, a secret-shaped word is replaced, anything else gives one
character.  `redactPieces` lists what it keeps and what it replaces; a slice between characters panics
(`none`).
-/

namespace Mcp
open Base List

def isDelimiter (c : Char) : Bool := isWhitespace c || c == '"' || c == '`'

variable (rest : List Char)

def word : List Char := rest.takeWhile (!isDelimiter ·)

def isTokenChar (c : Char) : Bool := c.isAlphanum || c == '_' || c == '-'

def isSecretToken (candidate : List Char) : Bool :=
  ["ghp_", "gho_", "ghu_", "ghs_", "ghr_", "github_pat_", "sk-"].any fun start =>
    start.toList.isPrefixOf candidate &&
      decide (16 ≤ ((candidate.drop start.toList.length).takeWhile isTokenChar).length)

def isSecretUri (candidate : List Char) : Bool := "secret://".toList.isPrefixOf candidate

def isCredentialAssignment (candidate : List Char) : Bool :=
  (["api_key=", "apikey=", "api-key=", "token=", "password="].any fun start =>
    start.toList.isPrefixOf (candidate.map Char.toLower)) && decide (8 + 8 ≤ bytes candidate)

def isSecretShaped : Bool :=
  isSecretToken (word rest) || isSecretUri (word rest) || isCredentialAssignment (word rest)

def isBearer (w : List Char) : Bool := w.map Char.toLower = "bearer".toList

def sameLine (after : List Char) : List Char := after.takeWhile (· ≠ '\n')

def bearerGap (after : List Char) : List Char := (sameLine after).takeWhile isWhitespace

def bearerValue (after : List Char) : List Char :=
  ((sameLine after).dropWhile isWhitespace).takeWhile (!isDelimiter ·)

def afterWord : List Char := rest.dropWhile (!isDelimiter ·)

def hasBearer : Bool := isBearer (word rest) && !(bearerValue (afterWord rest)).isEmpty

/-- the bytes that a bearer skips; the whitespace is counted in characters -/
def bearerSkip : Nat :=
  bytes (word rest) + (bearerGap (afterWord rest)).length + bytes (bearerValue (afterWord rest))

def redactStep (c : Char) (l : List Char) : Option (Piece Char × List Char) :=
  if hasBearer (c :: l) then
    (splitBytes (bearerSkip (c :: l)) (c :: l)).map fun (span, rest) => (.replaced span, rest)
  else if isSecretShaped (c :: l) then some (.replaced (word (c :: l)), afterWord (c :: l))
  else some (.kept c, l)

def redactLoop : Nat → List Char → Option (List (Piece Char))
  | _, [] => some []
  | 0, _ :: _ => none
  | n + 1, c :: l => (redactStep c l).bind fun (p, rest) => (redactLoop n rest).map (p :: ·)

def redactPieces (text : List Char) : Option (List (Piece Char)) := redactLoop text.length text

def redactSecrets (text : List Char) : Option (List Char × Nat) :=
  (redactPieces text).map fun ps => (shown "[REDACTED]".toList ps, replacedCount ps)

/-! ## words and values -/

def endsWord : List Char → Bool
  | [] => true
  | c :: _ => isDelimiter c

/-- the text up to here does not end inside a word -/
def WordStart (before : List Char) : Prop := ∀ c, before.getLast? = some c → isDelimiter c = true

section words
variable {l w z : List Char} {c : Char}

theorem isDelimiter_of_isWhitespace (h : isWhitespace c = true) : isDelimiter c = true := by
  rw [isDelimiter, h]
  rfl

theorem word_append_afterWord (l : List Char) : word l ++ afterWord l = l := takeWhile_append_dropWhile

theorem of_mem_word (h : c ∈ word l) : isDelimiter c = false := by
  simpa using mem_takeWhile_imp h

theorem endsWord_dropWhile {q : Char → Bool} (hq : ∀ c, q c = false → isDelimiter c = true) (l : List Char) :
    endsWord (l.dropWhile q) = true := by
  induction l with
  | nil => rfl
  | cons c l ih =>
    cases hc : q c with
    | false =>
      rw [dropWhile_cons_of_neg (by simp [hc])]
      exact hq c hc
    | true =>
      rw [dropWhile_cons_of_pos (by simp [hc])]
      exact ih

theorem endsWord_append (hl : endsWord l = true) (hz : endsWord z = true) : endsWord (l ++ z) = true := by
  cases l with
  | nil => exact hz
  | cons => exact hl

theorem endsWord_afterWord (l : List Char) : endsWord (afterWord l) = true :=
  endsWord_dropWhile (by simp) l

theorem word_append (hw : ∀ c ∈ w, isDelimiter c = false) (hz : endsWord z = true) : word (w ++ z) = w := by
  have hall : ∀ c ∈ w, (!isDelimiter c) = true := fun c hc => by rw [hw c hc]; rfl
  show (w ++ z).takeWhile _ = w
  rw [takeWhile_append_of_pos hall]
  cases z with
  | nil => rw [takeWhile_nil, append_nil]
  | cons c =>
    have hc : isDelimiter c = true := hz
    rw [takeWhile_cons_of_neg (by simp [hc]), append_nil]

theorem word_eq_nil (h : endsWord l = true) : word l = [] :=
  word_append (fun _ hc => absurd hc not_mem_nil) h

theorem isSecretShaped_of_word_nil (h : word l = []) : isSecretShaped l = false := by
  rw [isSecretShaped, h]
  decide

theorem isBearer_ne_nil (h : isBearer w = true) : w ≠ [] := by
  rintro rfl
  exact absurd h (by decide)

theorem word_ne_nil_of_shaped (h : isSecretShaped l = true) : word l ≠ [] := by
  intro hnil
  rw [isSecretShaped_of_word_nil hnil] at h
  cases h

theorem not_wordStart_concat {before : List Char} (hc : isDelimiter c = false) : ¬ WordStart (before ++ [c]) := by
  intro h
  rw [h c (by simp)] at hc
  cases hc

theorem exists_after (after : List Char) : ∃ rest, after = bearerGap after ++ (bearerValue after ++ rest) ∧
    endsWord rest = true := by
  have hline : after = sameLine after ++ after.dropWhile (· ≠ '\n') := takeWhile_append_dropWhile.symm
  have hgap : sameLine after = bearerGap after ++ (sameLine after).dropWhile isWhitespace :=
    takeWhile_append_dropWhile.symm
  have hvalue : (sameLine after).dropWhile isWhitespace = bearerValue after ++
      ((sameLine after).dropWhile isWhitespace).dropWhile (!isDelimiter ·) :=
    takeWhile_append_dropWhile.symm
  refine ⟨((sameLine after).dropWhile isWhitespace).dropWhile (!isDelimiter ·) ++ after.dropWhile (· ≠ '\n'),
    ?_, ?_⟩
  · rw [← append_assoc (bearerValue after), ← hvalue, ← append_assoc, ← hgap]
    exact hline
  · refine endsWord_append (endsWord_dropWhile (by simp) _) (endsWord_dropWhile (fun c hc => ?_) _)
    have hnewline : c = '\n' := by simpa using hc
    rw [hnewline]
    decide

theorem of_mem_bearerGap {after : List Char} (h : c ∈ bearerGap after) : isWhitespace c = true :=
  mem_takeWhile_imp h

theorem of_mem_bearerValue {after : List Char} (h : c ∈ bearerValue after) : isDelimiter c = false := by
  simpa using mem_takeWhile_imp h

end words

/-! ## the loop -/

section loop
variable {c : Char} {l rest : List Char} {p : Piece Char}

theorem redactStep_source (h : redactStep c l = some (p, rest)) : c :: l = p.source ++ rest ∧ p.source ≠ [] := by
  unfold redactStep at h
  split at h
  · rename_i hbearer
    obtain ⟨⟨span, rest'⟩, hsplit, heq⟩ := Option.map_eq_some_iff.mp h
    obtain ⟨rfl, rfl⟩ := Prod.mk.inj heq
    obtain ⟨hsource, hbytes⟩ := splitBytes_eq_some.mp hsplit
    refine ⟨hsource, fun hnil => ?_⟩
    have hspan : span = [] := hnil
    have hword : word (c :: l) ≠ [] := isBearer_ne_nil ((Bool.and_eq_true _ _).mp hbearer).1
    rw [hspan, bytes_nil, bearerSkip] at hbytes
    exact hword (bytes_eq_zero.mp (by omega))
  · split at h
    · rename_i hshaped
      obtain ⟨rfl, rfl⟩ := Prod.mk.inj (Option.some.inj h)
      exact ⟨(word_append_afterWord _).symm, word_ne_nil_of_shaped hshaped⟩
    · obtain ⟨rfl, rfl⟩ := Prod.mk.inj (Option.some.inj h)
      exact ⟨rfl, cons_ne_nil _ _⟩

theorem redactStep_length (h : redactStep c l = some (p, rest)) : rest.length ≤ l.length := by
  obtain ⟨hsource, hne⟩ := redactStep_source h
  have hlength := congrArg length hsource
  have hpos : 0 < p.source.length := length_pos_iff.mpr hne
  rw [length_cons, length_append] at hlength
  omega

theorem redactLoop_eq {n : Nat} (h : l.length ≤ n) : redactLoop n l = redactPieces l := by
  induction n using Nat.strong_induction_on generalizing l with
  | _ n ih =>
    cases l with
    | nil => cases n <;> rfl
    | cons c l =>
      obtain ⟨n, rfl⟩ : ∃ m, n = m + 1 := ⟨n - 1, by rw [length_cons] at h; omega⟩
      rw [length_cons] at h
      show (redactStep c l).bind _ = (redactStep c l).bind _
      cases hstep : redactStep c l with
      | none => rfl
      | some next =>
        obtain ⟨p, rest⟩ := next
        have hrest := redactStep_length hstep
        show (redactLoop n rest).map _ = (redactLoop l.length rest).map _
        rw [ih n (by omega) (by omega)]
        by_cases hn : l.length = n
        · rw [hn, ih n (by omega) (by omega)]
        · rw [ih l.length (by omega) hrest]

theorem redactPieces_cons (c : Char) (l : List Char) : redactPieces (c :: l) =
    (redactStep c l).bind fun (p, rest) => (redactPieces rest).map (p :: ·) := by
  show (redactStep c l).bind _ = _
  cases hstep : redactStep c l with
  | none => rfl
  | some next =>
    obtain ⟨p, rest⟩ := next
    show (redactLoop l.length rest).map _ = (redactPieces rest).map _
    rw [redactLoop_eq (redactStep_length hstep)]

theorem redactPieces_cons_of (h : redactStep c l = some (p, rest)) :
    redactPieces (c :: l) = (redactPieces rest).map (p :: ·) := by
  rw [redactPieces_cons, h]
  rfl

theorem source_redactPieces {l : List Char} {ps : List (Piece Char)} (h : redactPieces l = some ps) :
    source ps = l := by
  induction hn : l.length using Nat.strong_induction_on generalizing l ps with
  | _ n ih =>
    cases l with
    | nil =>
      obtain rfl := Option.some.inj h
      rfl
    | cons c l =>
      cases hstep : redactStep c l with
      | none =>
        rw [redactPieces_cons, hstep] at h
        cases h
      | some next =>
        obtain ⟨p, rest⟩ := next
        rw [redactPieces_cons_of hstep] at h
        obtain ⟨ps', hps', rfl⟩ := Option.map_eq_some_iff.mp h
        have hrest := redactStep_length hstep
        rw [source_cons, ih rest.length (by rw [length_cons] at hn; omega) hps' rfl]
        exact (redactStep_source hstep).1.symm

theorem redactPieces_gap {g : List Char} (hg : ∀ c ∈ g, isWhitespace c = true) (l : List Char) :
    redactPieces (g ++ l) = (redactPieces l).map (g.map .kept ++ ·) := by
  induction g with
  | nil =>
    show redactPieces l = (redactPieces l).map id
    rw [Option.map_id, id]
  | cons c g ih =>
    have hword : word (c :: (g ++ l)) = [] :=
      word_eq_nil (isDelimiter_of_isWhitespace (hg c mem_cons_self))
    have hstep : redactStep c (g ++ l) = some (.kept c, g ++ l) := by
      have hbearer : hasBearer (c :: (g ++ l)) = false := by
        rw [hasBearer, hword]
        rfl
      rw [redactStep, hbearer, isSecretShaped_of_word_nil hword]
      rfl
    rw [cons_append, redactPieces_cons_of hstep, ih fun c hc => hg c (mem_cons_of_mem _ hc),
      Option.map_map]
    rfl

end loop

end Mcp

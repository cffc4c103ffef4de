import Orchestraitor.Campaign.Session

/-!
# Task ids

An id names the repository and the issue of a board item, as part of a file name.  Behind `board-` stands
the repository, as `owner_name` or with a digest (`StandsFor`), and behind the last dash the number.
-/

namespace Campaign
open List

variable {repo repo' : String} {number number' : Nat} {body : List Char}

def hexValue (digits : List Char) : Nat :=
  digits.foldl (fun n c => 16 * n + if c.isDigit then c.toNat - 48 else c.toNat - 87) 0

theorem hexValue_toDigits (n : Nat) : hexValue (Nat.toDigits 16 n) = n := by
  have hdigit : ∀ d < 16, (if d.digitChar.isDigit then d.digitChar.toNat - 48 else
      d.digitChar.toNat - 87) = d := by
    decide
  induction n using Nat.strongRecOn with
  | ind n ih =>
    rw [Nat.toDigits_eq_if (by decide)]
    split
    · next hlt =>
      show 16 * 0 + _ = n
      rw [hdigit n hlt]
      omega
    · next hge =>
      have hmod := hdigit (n % 16) (Nat.mod_lt n (by decide))
      have hdiv := ih (n / 16) (by omega)
      rw [hexValue] at hdiv ⊢
      rw [foldl_append, hdiv, foldl_cons, foldl_nil, hmod]
      omega

theorem hexValue_hex8 (n : Nat) : hexValue (hex8 n).toList = n := by
  have hzeros : ∀ k, hexValue (replicate k '0' ++ Nat.toDigits 16 n) =
      hexValue (Nat.toDigits 16 n) := by
    intro k
    induction k with
    | zero => rfl
    | succ _ ih => exact ih
  rw [hex8, String.toList_ofList, hzeros, hexValue_toDigits]

theorem fnv1a_lt (value : String) : fnv1a value < 16 ^ 8 := by
  unfold fnv1a
  generalize value.toList.flatMap String.utf8EncodeChar = bytes
  cases bytes using reverseRecOn with
  | nil =>
    rw [foldl_nil]
    omega
  | append_singleton =>
    rw [foldl_append, foldl_cons, foldl_nil]
    exact Nat.mod_lt _ (Nat.two_pow_pos 32)

def isDigitChar (c : Char) : Bool := isSlugChar c && c != '-'

@[reducible] def IdChar (c : Char) : Prop := isSlugChar c ∨ c = '_'

theorem isDigitChar_of_mem {b n : Nat} (hb : 1 < b) (hle : b ≤ 16) :
    ∀ c ∈ Nat.toDigits b n, isDigitChar c := by
  have hdigit : ∀ d < 16, isDigitChar d.digitChar := by decide
  induction n using Nat.strongRecOn with
  | ind n ih =>
    intro c h
    rw [Nat.toDigits_eq_if hb] at h
    split at h
    · next hlt =>
      rw [mem_singleton.mp h]
      exact hdigit n (by omega)
    · next hge =>
      obtain h | h := mem_append.mp h
      · exact ih (n / b) (Nat.div_lt_self (by omega) hb) c h
      · rw [mem_singleton.mp h]
        exact hdigit _ ((Nat.mod_lt n (by omega)).trans_le hle)

theorem hex8_chars {n : Nat} : ∀ c ∈ (hex8 n).toList, isDigitChar c := by
  intro c hc
  rw [hex8, String.toList_ofList] at hc
  obtain hc | hc := mem_append.mp hc
  · rw [eq_of_mem_replicate hc]
    decide
  · exact isDigitChar_of_mem (by decide) (by decide) c hc

theorem length_hex8 {n : Nat} (h : n < 16 ^ 8) : (hex8 n).toList.length = 8 := by
  have hle := Nat.toDigits_length 16 n 8 (by decide) h
  rw [hex8, String.toList_ofList, length_append, length_replicate]
  omega

theorem utf8ByteSize_eq_length {s : String} (h : ∀ c ∈ s.toList, IdChar c) :
    s.utf8ByteSize = s.toList.length := by
  have hsize : ∀ c, IdChar c → c.utf8Size = 1 := by
    intro c hc
    rw [Char.utf8Size_eq_one_iff]
    simp only [IdChar, isSlugChar, Char.isAlphanum, Char.isAlpha, Char.isUpper, Char.isLower, Char.isDigit,
      Bool.or_eq_true, Bool.and_eq_true, decide_eq_true_eq, beq_iff_eq] at hc
    obtain (((h | h) | h) | rfl) | rfl := hc
    · exact UInt32.le_trans h.2 (by decide)
    · exact UInt32.le_trans h.2 (by decide)
    · exact UInt32.le_trans h.2 (by decide)
    · decide
    · decide
  rw [← String.ofList_toList (s := s), String.utf8ByteSize_ofList, String.toList_ofList]
  revert h
  induction s.toList with
  | nil => exact fun _ => rfl
  | cons c l ih =>
    intro h
    rw [String.utf8Len_cons, length_cons, ih fun c hc => h c (mem_cons_of_mem _ hc),
      hsize c (h c mem_cons_self)]

def idBudget (number : Nat) : Nat := taskIdMaxLen - s!"board--{number}".utf8ByteSize

theorem slug_of_digit {c : Char} (h : isDigitChar c) : IdChar c :=
  .inl (Bool.and_eq_true_iff.mp h).1

theorem not_mem_digits {l : List Char} (h : ∀ c ∈ l, isDigitChar c) : '-' ∉ l :=
  fun hmem => absurd (h _ hmem) (by decide)

theorem idBudget_eq (number : Nat) : idBudget number = 57 - (Nat.toDigits 10 number).length := by
  have hlist : s!"board--{number}".toList = "board--".toList ++ Nat.toDigits 10 number := by
    show ("board--" ++ Nat.repr number).toList = _
    simp
  have hsize : s!"board--{number}".utf8ByteSize = 7 + (Nat.toDigits 10 number).length := by
    rw [utf8ByteSize_eq_length, hlist, length_append]
    · rfl
    · intro c hc
      rw [hlist] at hc
      obtain hc | hc := mem_append.mp hc
      · have hfixed : ∀ c ∈ "board--".toList, IdChar c := by
          simp
          decide
        exact hfixed c hc
      · exact slug_of_digit (isDigitChar_of_mem (by decide) (by decide) c hc)
  rw [idBudget, hsize, taskIdMaxLen]
  omega

theorem ownerName_some {repo joined : String} {budget : Nat}
    (h : ownerName repo budget = some joined) : ∃ owner name, repo.toList = owner ++ '/' :: name ∧
      (∀ c ∈ owner ++ name, isSlugChar c) ∧ joined.toList = owner ++ '_' :: name ∧
        joined.toList.length ≤ budget := by
  unfold ownerName at h
  split at h
  · next owner slash name hspan =>
    rw [span_eq_takeWhile_dropWhile] at hspan
    obtain ⟨howner, hrest⟩ := Prod.mk.inj hspan
    have hslash := head?_dropWhile_not (fun c => decide (c ≠ '/')) repo.toList
    rw [hrest, head?_cons] at hslash
    obtain rfl : slash = '/' := by simpa using hslash
    have hrepo : owner ++ '/' :: name = repo.toList := by
      rw [← howner, ← hrest, takeWhile_append_dropWhile]
    simp only [charsetClean, Option.ite_none_right_eq_some, Bool.and_eq_true, Option.some.injEq,
      all_eq_true] at h
    obtain ⟨⟨⟨-, howner⟩, -, hname⟩, hle, rfl⟩ := h
    have hkept : ∀ l : List Char, (∀ c ∈ l, isSlugChar c) →
        (l.map fun c => if c == '/' then '_' else c) = l := by
      intro l hl
      refine (map_congr_left fun c hc => if_neg fun hc' => ?_).trans (map_id l)
      have := hl c hc
      rw [beq_iff_eq.mp hc'] at this
      cases this
    rw [← hrepo, map_append, map_cons, hkept owner howner, hkept name hname] at hle ⊢
    exact ⟨owner, name, rfl, fun c hc => (mem_append.mp hc).elim (howner c) (hname c),
      String.toList_ofList, String.toList_ofList.symm ▸ hle⟩
  · cases h

/-- a charset-clean `owner/name` that fits beside the number -/
def Readable (repo : String) (number : Nat) : Prop :=
  ∃ owner name, repo.toList = owner ++ '/' :: name ∧ charsetClean owner = true ∧
    charsetClean name = true ∧ repo.toList.length ≤ idBudget number

theorem ownerName_of_readable (h : Readable repo number) :
    ownerName repo (idBudget number) ≠ none := by
  obtain ⟨owner, name, hrepo, howner, hname, hle⟩ := h
  have hslash : ∀ c ∈ owner, decide (c ≠ '/') = true := by
    intro c hc
    have hslug := all_eq_true.mp (Bool.and_eq_true_iff.mp howner).2 c hc
    rw [decide_eq_true_eq]
    rintro rfl
    cases hslug
  have hspan : repo.toList.span (· ≠ '/') = (owner, '/' :: name) := by
    rw [span_eq_takeWhile_dropWhile, hrepo, takeWhile_append_of_pos hslash, dropWhile_append_of_pos hslash]
    simp
  unfold ownerName
  rw [hspan]
  simp [howner, hname, hle]

/-- `body` stands for the repository: its owner and name, or a slug of it and its digest -/
def StandsFor (repo : String) (number : Nat) (body : List Char) : Prop :=
  (∃ owner name, repo.toList = owner ++ '/' :: name ∧ (∀ c ∈ owner ++ name, isSlugChar c) ∧
    body = owner ++ '_' :: name ∧ body.length ≤ idBudget number) ∨
  ownerName repo (idBudget number) = none ∧ ∃ slug, (∀ c ∈ slug, isSlugChar c) ∧
    slug.length ≤ idBudget number - 9 ∧ body = slug ++ '-' :: (hex8 (fnv1a repo)).toList

theorem exists_standsFor (repo : String) (number : Nat) : ∃ body, StandsFor repo number body ∧
    (taskIdFor repo number).toList = "board-".toList ++ body ++ '-' :: Nat.toDigits 10 number := by
  cases hname : ownerName repo (idBudget number) with
  | some joined =>
    obtain ⟨owner, name, hrepo, hslug, hjoined, hle⟩ := ownerName_some hname
    refine ⟨_, .inl ⟨owner, name, hrepo, hslug, hjoined, hle⟩, ?_⟩
    rw [idBudget] at hname
    simp only [taskIdFor, hname]
    show ("board-" ++ joined ++ "-" ++ Nat.repr number).toList = _
    simp
  | none =>
    refine ⟨_, .inr ⟨hname, (repo.toList.map fun c => if isSlugChar c then c else '-').take
      (idBudget number - 9), fun c hc => ?_, length_take_le .., rfl⟩, ?_⟩
    · obtain ⟨a, -, rfl⟩ := mem_map.mp (mem_of_mem_take hc)
      split
      · assumption
      · decide
    · rw [idBudget] at hname ⊢
      simp only [taskIdFor, hname]
      show ("board-" ++ String.ofList _ ++ "-" ++ hex8 (fnv1a repo) ++ "-" ++ Nat.repr number).toList = _
      simp

theorem eq_of_last_cut {a : Char} {x y d e : List Char} (h : x ++ a :: d = y ++ a :: e) (hd : a ∉ d)
    (he : a ∉ e) : x = y ∧ d = e := by
  obtain ⟨k, rfl, hk⟩ | ⟨k, rfl, hk⟩ := append_eq_append_iff.mp h
  · cases k with
    | nil => exact ⟨(append_nil x).symm, (cons.inj hk).2⟩
    | cons => exact absurd ((cons.inj hk).2 ▸ mem_append_right _ mem_cons_self) hd
  · cases k with
    | nil => exact ⟨append_nil y, (cons.inj hk).2.symm⟩
    | cons => exact absurd ((cons.inj hk).2 ▸ mem_append_right _ mem_cons_self) he

theorem eq_of_id_eq {x y : List Char} {m n : Nat}
    (h : "board-".toList ++ x ++ '-' :: Nat.toDigits 10 m =
      "board-".toList ++ y ++ '-' :: Nat.toDigits 10 n) : x = y ∧ m = n := by
  have hdigits : ∀ n, '-' ∉ Nat.toDigits 10 n := fun n =>
    not_mem_digits (isDigitChar_of_mem (by decide) (by decide))
  obtain ⟨hbody, hnumber⟩ := eq_of_last_cut h (hdigits m) (hdigits n)
  refine ⟨append_cancel_left hbody, ?_⟩
  rw [← Nat.ofDigitChars_ten_toDigits (n := m), hnumber, Nat.ofDigitChars_ten_toDigits]

theorem not_mem_of_slug {l : List Char} (h : ∀ c ∈ l, isSlugChar c) : '_' ∉ l :=
  fun hmem => absurd (h _ hmem) (by decide)

theorem slug_of_digest {slug : List Char} (h : ∀ c ∈ slug, isSlugChar c) {n : Nat} :
    ∀ c ∈ slug ++ '-' :: (hex8 n).toList, isSlugChar c := by
  intro c hc
  obtain hc | hc := mem_append.mp hc
  · exact h c hc
  · obtain rfl | hc := mem_cons.mp hc
    · decide
    · exact (Bool.and_eq_true_iff.mp (hex8_chars c hc)).1

theorem StandsFor.chars (h : StandsFor repo number body) :
    ∀ c ∈ body, IdChar c := by
  intro c hc
  obtain ⟨owner, name, -, hslug, rfl, -⟩ | ⟨-, slug, hslug, -, rfl⟩ := h
  · rw [mem_append, mem_cons] at hc
    obtain hc | rfl | hc := hc
    · exact .inl (hslug c (mem_append_left _ hc))
    · exact .inr rfl
    · exact .inl (hslug c (mem_append_right _ hc))
  · exact .inl (slug_of_digest hslug c hc)

theorem StandsFor.length_le (h : StandsFor repo number body)
    (hdigits : (Nat.toDigits 10 number).length ≤ 20) :
    body.length + (Nat.toDigits 10 number).length ≤ 57 := by
  have hbudget := idBudget_eq number
  obtain ⟨_, _, -, -, -, hle⟩ | ⟨-, slug, -, hle, rfl⟩ := h
  · omega
  · rw [length_append, length_cons, length_hex8 (fnv1a_lt repo)]
    omega

/-- without a digest what stands for a repository says which one it is -/
theorem StandsFor.injective (h : StandsFor repo number body) (h' : StandsFor repo' number' body) :
    repo = repo' ∨ ownerName repo (idBudget number) = none ∧
      ownerName repo' (idBudget number') = none ∧ fnv1a repo = fnv1a repo' := by
  obtain ⟨owner, name, hrepo, hslug, rfl, -⟩ | ⟨hnone, slug, hslug, -, rfl⟩ := h
  · have hmem : '_' ∈ owner ++ '_' :: name := mem_append_right _ mem_cons_self
    obtain ⟨owner', name', hrepo', hslug', heq, -⟩ | ⟨-, slug, hslug, -, heq⟩ := h'
    · obtain ⟨rfl, rfl⟩ := eq_of_last_cut heq
        (not_mem_of_slug fun c hc => hslug c (mem_append_right _ hc))
        (not_mem_of_slug fun c hc => hslug' c (mem_append_right _ hc))
      exact .inl (String.toList_inj.mp (hrepo.trans hrepo'.symm))
    · exact absurd (heq ▸ hmem) (not_mem_of_slug (slug_of_digest hslug))
  · obtain ⟨owner', name', -, -, heq, -⟩ | ⟨hnone', slug', -, -, heq⟩ := h'
    · have hmem : '_' ∈ owner' ++ '_' :: name' := mem_append_right _ mem_cons_self
      exact absurd (heq.symm ▸ hmem) (not_mem_of_slug (slug_of_digest hslug))
    · obtain ⟨-, hdigest⟩ := eq_of_last_cut heq (not_mem_digits hex8_chars) (not_mem_digits hex8_chars)
      refine .inr ⟨hnone, hnone', ?_⟩
      rw [← hexValue_hex8 (fnv1a repo), hdigest, hexValue_hex8]

/-- Ids are short file names, and two items have the same one only if they have the same number and
both their repositories go by the same digest: never if their repositories are readable. -/
theorem task_id_unique (repo repo' : String) (number number' : UInt64) :
    (taskIdFor repo number.toNat).utf8ByteSize ≤ 64 ∧
    (∀ c ∈ (taskIdFor repo number.toNat).toList, IdChar c) ∧
    (taskIdFor repo number.toNat = taskIdFor repo' number'.toNat → (repo, number) ≠ (repo', number') →
      number = number' ∧ ownerName repo (idBudget number.toNat) = none ∧
        ownerName repo' (idBudget number'.toNat) = none ∧ fnv1a repo = fnv1a repo') ∧
    (Readable repo number.toNat → Readable repo' number'.toNat →
      taskIdFor repo number.toNat = taskIdFor repo' number'.toNat → (repo, number) = (repo', number')) := by
  have hdigits := Nat.toDigits_length 10 number.toNat 20 (by decide)
    (number.toNat_lt.trans (by decide))
  obtain ⟨body, hbody, hid⟩ := exists_standsFor repo number.toNat
  have hchars : ∀ c ∈ (taskIdFor repo number.toNat).toList, IdChar c := by
    intro c hc
    rw [hid] at hc
    simp only [mem_append, mem_cons] at hc
    obtain (hc | hc) | rfl | hc := hc
    · have hfixed : ∀ c ∈ "board-".toList, IdChar c := by
        simp
        decide
      exact hfixed c hc
    · exact hbody.chars c hc
    · exact .inl (by decide)
    · exact slug_of_digit (isDigitChar_of_mem (by decide) (by decide) c hc)
  have hdigest : taskIdFor repo number.toNat = taskIdFor repo' number'.toNat →
      (repo, number) ≠ (repo', number') → number = number' ∧ ownerName repo (idBudget number.toNat) = none ∧
        ownerName repo' (idBudget number'.toNat) = none ∧ fnv1a repo = fnv1a repo' := by
    intro heq hne
    obtain ⟨body', hbody', hid'⟩ := exists_standsFor repo' number'.toNat
    obtain ⟨rfl, hnumber⟩ := eq_of_id_eq (hid.symm.trans ((congrArg String.toList heq).trans hid'))
    obtain rfl := UInt64.toNat_inj.mp hnumber
    obtain rfl | hdigest := hbody.injective hbody'
    · exact absurd rfl hne
    · exact ⟨rfl, hdigest⟩
  refine ⟨?_, hchars, hdigest, fun hreadable _ heq => ?_⟩
  · have hle := hbody.length_le hdigits
    rw [utf8ByteSize_eq_length hchars, hid, length_append, length_append, length_cons]
    show 6 + _ + _ ≤ 64
    omega
  · by_contra hne
    exact ownerName_of_readable hreadable (hdigest heq hne).2.1

end Campaign

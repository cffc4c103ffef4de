import Mathlib.Logic.Function.Basic
import Mathlib.Data.List.Basic

/-!
# Files with names

A name leads to a file, and an open file is used by its handle whatever happens to the name: a rename moves
the name only, and what is written through a handle is seen under the name the file has then.  No file has
two names.
-/

namespace Base
open Function

abbrev Path := List (List Char)

inductive FileError where
  | notFound | alreadyExists | other
  deriving DecidableEq

structure Files (β : Type) where
  dirs : Path → Bool
  names : Path → Option Nat
  data : Nat → List β
  next : Nat
  named_once : ∀ p q n, names p = some n → names q = some n → p = q
  named_made : ∀ p n, names p = some n → n < next

namespace Files
variable {β : Type}

def empty : Files β :=
  { dirs := fun _ => false, names := fun _ => none, data := fun _ => [], next := 0
    named_once := fun _ _ _ h => by cases h
    named_made := fun _ _ h => by cases h }

variable (f : Files β)

def isFile (p : Path) : Bool := (f.names p).isSome

def createDirAll (p : Path) : Files β :=
  { f with dirs := fun q => f.dirs q || q.isPrefixOf p }

def setData (n : Nat) (bytes : List β) : Files β :=
  { f with data := Function.update f.data n bytes }

def create (p : Path) (_ : f.names p = none) : Files β :=
  { f with
    names := Function.update f.names p (some f.next)
    data := Function.update f.data f.next []
    next := f.next + 1
    named_once := by
      intro a b n ha hb
      by_cases hap : a = p
      · by_cases hbp : b = p
        · rw [hap, hbp]
        · subst hap
          rw [Function.update_self] at ha
          rw [Function.update_of_ne hbp] at hb
          exact absurd (f.named_made b n hb) (by rw [← Option.some.inj ha]; exact Nat.lt_irrefl _)
      · rw [Function.update_of_ne hap] at ha
        by_cases hbp : b = p
        · subst hbp
          rw [Function.update_self] at hb
          exact absurd (f.named_made a n ha) (by rw [← Option.some.inj hb]; exact Nat.lt_irrefl _)
        · rw [Function.update_of_ne hbp] at hb
          exact f.named_once a b n ha hb
    named_made := by
      intro a n ha
      by_cases hap : a = p
      · subst hap
        rw [Function.update_self] at ha
        rw [← Option.some.inj ha]
        exact Nat.lt_succ_self _
      · rw [Function.update_of_ne hap] at ha
        exact Nat.lt_succ_of_lt (f.named_made a n ha) }

def openTruncate (p : Path) : Except FileError (Nat × Files β) :=
  if f.dirs p.dropLast then
    match h : f.names p with
    | some n => .ok (n, f.setData n [])
    | none => .ok (f.next, f.create p h)
  else .error .notFound

def write (n : Nat) (bytes : List β) : Files β :=
  f.setData n (bytes ++ (f.data n).drop bytes.length)

/-- the file `n` of the name `a` gets the name `b` in its place; what had the name `b` loses it -/
def move (a b : Path) (n : Nat) (h : f.names a = some n) : Files β :=
  { f with
    names := Function.update (Function.update f.names a none) b (some n)
    named_once := by
      intro p q m hp hq
      have hold : ∀ c, c ≠ b → Function.update (Function.update f.names a none) b (some n) c = some m →
          f.names c = some m ∧ c ≠ a := by
        intro c hcb hc
        rw [Function.update_of_ne hcb] at hc
        by_cases hca : c = a
        · rw [hca, Function.update_self] at hc
          cases hc
        · rw [Function.update_of_ne hca] at hc
          exact ⟨hc, hca⟩
      by_cases hpb : p = b
      · by_cases hqb : q = b
        · rw [hpb, hqb]
        · rw [hpb, Function.update_self] at hp
          obtain ⟨hq, hqa⟩ := hold q hqb hq
          exact absurd (f.named_once q a m hq (hp ▸ h)) hqa
      · obtain ⟨hp, hpa⟩ := hold p hpb hp
        by_cases hqb : q = b
        · rw [hqb, Function.update_self] at hq
          exact absurd (f.named_once p a m hp (hq ▸ h)) hpa
        · exact f.named_once p q m hp (hold q hqb hq).1
    named_made := by
      intro p m hp
      by_cases hpb : p = b
      · rw [hpb, Function.update_self] at hp
        exact f.named_made a m (hp ▸ h)
      · rw [Function.update_of_ne hpb] at hp
        by_cases hpa : p = a
        · rw [hpa, Function.update_self] at hp
          cases hp
        · rw [Function.update_of_ne hpa] at hp
          exact f.named_made p m hp }

def rename (a b : Path) : Except FileError (Files β) :=
  match h : f.names a with
  | none => .error .notFound
  | some n => .ok (f.move a b n h)

def removeFile (p : Path) : Except FileError (Files β) :=
  match f.names p with
  | none => .error .notFound
  | some _ => .ok
    { f with
      names := Function.update f.names p none
      named_once := by
        intro a b n ha hb
        have hold : ∀ c, Function.update f.names p none c = some n → f.names c = some n := by
          intro c hc
          by_cases hcp : c = p
          · rw [hcp, Function.update_self] at hc
            cases hc
          · rwa [Function.update_of_ne hcp] at hc
        exact f.named_once a b n (hold a ha) (hold b hb)
      named_made := by
        intro a n ha
        by_cases hap : a = p
        · rw [hap, Function.update_self] at ha
          cases ha
        · rw [Function.update_of_ne hap] at ha
          exact f.named_made a n ha }

def read (p : Path) : Except FileError (List β) :=
  match f.names p with
  | none => .error .notFound
  | some n => .ok (f.data n)

/-! ## what an operation leaves alone -/

section
variable {f : Files β} {p q : Path} {n m : Nat}

theorem openTruncate_spec {r : Nat × Files β} (h : f.openTruncate p = .ok r) :
    r.2.names p = some r.1 ∧ r.2.data r.1 = [] ∧ r.2.dirs = f.dirs ∧
      (∀ q, q ≠ p → r.2.names q = f.names q) ∧
      ∀ q m, q ≠ p → f.names q = some m → r.2.data m = f.data m := by
  unfold openTruncate at h
  split at h
  · split at h
    · rename_i n hn
      obtain rfl := Except.ok.inj h
      refine ⟨hn, update_self .., rfl, fun _ _ => rfl, fun q m hq hm => ?_⟩
      refine update_of_ne (fun hmn => hq ?_) ..
      exact f.named_once q p n (hmn ▸ hm) hn
    · rename_i hn
      obtain rfl := Except.ok.inj h
      refine ⟨update_self .., update_self .., rfl,
        fun q hq => update_of_ne hq .., fun q m _ hm => ?_⟩
      exact update_of_ne (Nat.ne_of_lt (f.named_made q m hm)) ..
  · cases h

theorem openTruncate_ok (h : f.dirs p.dropLast = true) : ∃ r, f.openTruncate p = .ok r := by
  unfold openTruncate
  rw [if_pos h]
  split
  · exact ⟨_, rfl⟩
  · exact ⟨_, rfl⟩

theorem write_data_of_ne {bytes : List β} (h : m ≠ n) : (f.write n bytes).data m = f.data m :=
  update_of_ne h ..

theorem write_data_self {bytes : List β} (h : f.data n = []) : (f.write n bytes).data n = bytes := by
  show update f.data n _ n = bytes
  rw [update_self, h, List.drop_nil, List.append_nil]

theorem rename_spec (hne : p ≠ q) (h : f.names p = some n) :
    ∃ g, f.rename p q = .ok g ∧ g.names q = some n ∧ g.names p = none ∧ g.data = f.data ∧
      g.dirs = f.dirs ∧ ∀ c, c ≠ p → c ≠ q → g.names c = f.names c := by
  unfold rename
  split
  · rename_i hn
    rw [h] at hn
    cases hn
  · rename_i m hm
    obtain rfl : m = n := Option.some.inj (hm.symm.trans h)
    refine ⟨_, rfl, update_self .., ?_, rfl, rfl, fun c hcp hcq => ?_⟩
    · exact (update_of_ne hne ..).trans (update_self ..)
    · exact (update_of_ne hcq ..).trans (update_of_ne hcp ..)

end

end Files

end Base

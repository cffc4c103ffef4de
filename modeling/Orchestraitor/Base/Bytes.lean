import Mathlib

/-!
# Byte offsets in a text

A text is a list of characters; `&s[..n]` and `&s[n..]` take byte offsets and panic between characters.

* `splitBytes n l`   the text before and after a byte offset, if it is a character boundary.
-/

namespace Base

def bytes (l : List Char) : Nat := (l.map Char.utf8Size).sum

@[simp] theorem bytes_nil : bytes [] = 0 := rfl

@[simp] theorem bytes_cons (c : Char) (l : List Char) : bytes (c :: l) = c.utf8Size + bytes l := rfl

@[simp] theorem bytes_append (l m : List Char) : bytes (l ++ m) = bytes l + bytes m := by
  unfold bytes
  rw [List.map_append, List.sum_append]

theorem length_le_bytes (l : List Char) : l.length ≤ bytes l := by
  induction l with
  | nil => exact Nat.le_refl 0
  | cons c =>
    have hc := c.utf8Size_pos
    rw [List.length_cons, bytes_cons]
    omega

theorem bytes_eq_zero {l : List Char} : bytes l = 0 ↔ l = [] := by
  refine ⟨fun h => ?_, fun h => by rw [h]; rfl⟩
  have := length_le_bytes l
  exact List.eq_nil_of_length_eq_zero (by omega)

/-- of two ways to cut a text the longer one goes through the rest of the shorter one -/
theorem split_of_length_le {α : Type} {l m s t : List α} (h : l ++ s = m ++ t)
    (hle : l.length ≤ m.length) : ∃ k, m = l ++ k ∧ s = k ++ t := by
  obtain ⟨k, rfl⟩ := List.prefix_of_prefix_length_le ⟨s, h⟩ ⟨t, rfl⟩ hle
  rw [List.append_assoc] at h
  exact ⟨k, rfl, List.append_cancel_left h⟩

theorem length_lt_of_bytes_lt {l m s t : List Char} (h : l ++ s = m ++ t) (hlt : bytes l < bytes m) :
    l.length < m.length := by
  by_contra hge
  obtain ⟨k, rfl, -⟩ := split_of_length_le h.symm (Nat.le_of_not_lt hge)
  rw [bytes_append] at hlt
  omega

def splitBytes : Nat → List Char → Option (List Char × List Char)
  | 0, l => some ([], l)
  | _ + 1, [] => none
  | n + 1, c :: l =>
    if c.utf8Size ≤ n + 1 then (splitBytes (n + 1 - c.utf8Size) l).map fun (before, after) => (c :: before, after)
    else none

theorem splitBytes_append (l m : List Char) : splitBytes (bytes l) (l ++ m) = some (l, m) := by
  induction l with
  | nil => rw [bytes_nil, splitBytes, List.nil_append]
  | cons c l ih =>
    have hc := c.utf8Size_pos
    obtain ⟨n, hn⟩ : ∃ n, bytes (c :: l) = n + 1 := ⟨bytes (c :: l) - 1, by rw [bytes_cons]; omega⟩
    rw [hn, List.cons_append, splitBytes, ← hn, bytes_cons, if_pos (by omega), Nat.add_sub_cancel_left, ih]
    rfl

theorem splitBytes_eq_some {n : Nat} {l before after : List Char} :
    splitBytes n l = some (before, after) ↔ l = before ++ after ∧ bytes before = n := by
  refine ⟨fun h => ?_, ?_⟩
  · induction l generalizing n before with
    | nil =>
      cases n with
      | zero =>
        obtain ⟨rfl, rfl⟩ := Prod.mk.inj (Option.some.inj h)
        exact ⟨rfl, rfl⟩
      | succ => cases h
    | cons c l ih =>
      cases n with
      | zero =>
        obtain ⟨rfl, rfl⟩ := Prod.mk.inj (Option.some.inj h)
        exact ⟨rfl, rfl⟩
      | succ =>
        rw [splitBytes] at h
        split at h
        · obtain ⟨⟨b, a⟩, hsplit, heq⟩ := Option.map_eq_some_iff.mp h
          obtain ⟨rfl, rfl⟩ := Prod.mk.inj heq
          obtain ⟨rfl, hb⟩ := ih hsplit
          refine ⟨rfl, ?_⟩
          rw [bytes_cons]
          omega
        · cases h
  · rintro ⟨rfl, rfl⟩
    exact splitBytes_append before after

end Base

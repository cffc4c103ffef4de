import Mathlib

/-!
# Texts with replaced spans

A text is cut into `Piece`s: elements that are kept and spans that a mark stands for.

* `Inside ps i n`   the `n` elements from place `i` on lie in one replaced span; `inside_cons` decides it
                    piece by piece.
-/

namespace Base

inductive Piece (α : Type) where
  | kept (a : α)
  | replaced (span : List α)
  deriving DecidableEq

section
variable {α : Type}

def Piece.source : Piece α → List α
  | .kept a => [a]
  | .replaced span => span

def Piece.shown (mark : List α) : Piece α → List α
  | .kept a => [a]
  | .replaced _ => mark

def Piece.isReplaced : Piece α → Bool
  | .kept _ => false
  | .replaced _ => true

def source (ps : List (Piece α)) : List α := ps.flatMap Piece.source

def shown (mark : List α) (ps : List (Piece α)) : List α := ps.flatMap (Piece.shown mark)

def replacedCount (ps : List (Piece α)) : Nat := ps.countP Piece.isReplaced

@[simp] theorem source_nil : source ([] : List (Piece α)) = [] := rfl

@[simp] theorem source_cons (p : Piece α) (ps : List (Piece α)) : source (p :: ps) = p.source ++ source ps := rfl

def Inside (ps : List (Piece α)) (i n : Nat) : Prop :=
  ∃ before span after, ps = before ++ .replaced span :: after ∧ (source before).length ≤ i ∧
    i + n ≤ (source before).length + span.length

variable {ps : List (Piece α)} {i n : Nat}

theorem inside_cons {p : Piece α} : Inside (p :: ps) i n ↔
    (∃ span, p = .replaced span ∧ i + n ≤ span.length) ∨
      (p.source.length ≤ i ∧ Inside ps (i - p.source.length) n) := by
  constructor
  · rintro ⟨before, span, after, heq, hbefore, hspan⟩
    cases before with
    | nil =>
      obtain ⟨rfl, -⟩ := List.cons.inj heq
      exact .inl ⟨span, rfl, by simpa using hspan⟩
    | cons q before =>
      obtain ⟨rfl, rfl⟩ := List.cons.inj heq
      rw [source_cons, List.length_append] at hbefore hspan
      exact .inr ⟨by omega, before, span, after, rfl, by omega, by omega⟩
  · rintro (⟨span, rfl, hspan⟩ | ⟨hle, before, span, after, rfl, hbefore, hspan⟩)
    · exact ⟨[], span, ps, rfl, Nat.zero_le _, by simpa using hspan⟩
    · refine ⟨p :: before, span, after, rfl, ?_, ?_⟩
      · rw [source_cons, List.length_append]
        omega
      · rw [source_cons, List.length_append]
        omega

theorem inside_kept {a : α} : ¬ Inside (.kept a :: ps) 0 n := by
  rw [inside_cons]
  rintro (⟨span, h, -⟩ | ⟨h, -⟩)
  · cases h
  · exact absurd h (by simp [Piece.source])

theorem inside_skip {p : Piece α} (hn : 0 < n) :
    Inside (p :: ps) (p.source.length + i) n ↔ Inside ps i n := by
  rw [inside_cons, Nat.add_sub_cancel_left]
  refine ⟨?_, fun h => .inr ⟨Nat.le_add_right _ _, h⟩⟩
  rintro (⟨span, rfl, hspan⟩ | ⟨-, h⟩)
  · exact absurd hspan (by simp only [Piece.source]; omega)
  · exact h

theorem inside_skip_kept {l : List α} (hn : 0 < n) :
    Inside (l.map .kept ++ ps) (l.length + i) n ↔ Inside ps i n := by
  induction l with
  | nil => rw [List.map_nil, List.nil_append, List.length_nil, Nat.zero_add]
  | cons a l ih =>
    have hplace : (a :: l).length + i = (Piece.kept a).source.length + (l.length + i) := by
      simp only [List.length_cons, Piece.source, List.length_nil]
      omega
    rw [List.map_cons, List.cons_append, hplace, inside_skip hn, ih]

end

end Base

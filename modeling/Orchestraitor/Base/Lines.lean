import Orchestraitor.Base.Prim

/-!
# Lines of a text

`str::lines`: the pieces that `\n` ends, without `\n` or `\r\n`; the last piece needs no end and keeps a
`\r`.
-/

namespace Base

def splitInclusive : List Char → List (List Char)
  | [] => []
  | c :: l =>
    if c = '\n' then [c] :: splitInclusive l
    else match splitInclusive l with
      | [] => [[c]]
      | line :: rest => (c :: line) :: rest

def stripSuffix (c : Char) (l : List Char) : Option (List Char) :=
  if l.getLast? = some c then some l.dropLast else none

/-- a `\r` is part of the line end only before a `\n` -/
def stripLineEnd (line : List Char) : List Char :=
  match stripSuffix '\n' line with
  | none => line
  | some line => (stripSuffix '\r' line).getD line

def lines (l : List Char) : List (List Char) := (splitInclusive l).map stripLineEnd

def joinLines : List (List Char) → List Char := List.intercalate ['\n']

example : lines "a\r\n\nb\r".toList = ["a".toList, [], "b\r".toList] := by decide

theorem stripSuffix_eq_none {c : Char} {l : List Char} (h : l.getLast? ≠ some c) : stripSuffix c l = none :=
  if_neg h

theorem splitInclusive_of_not_mem {l : List Char} (h : '\n' ∉ l) (hne : l ≠ []) : splitInclusive l = [l] := by
  induction l with
  | nil => exact absurd rfl hne
  | cons c l ih =>
    obtain ⟨hc, hl⟩ := not_or.mp fun hmem => h (List.mem_cons.mpr hmem)
    rw [splitInclusive, if_neg (Ne.symm hc)]
    cases l with
    | nil => rfl
    | cons d l => rw [ih hl (List.cons_ne_nil d l)]

theorem lines_of_not_mem {l : List Char} (h : '\n' ∉ l) (hne : l ≠ []) : lines l = [l] := by
  have hlast : l.getLast? ≠ some '\n' := fun heq => h (List.mem_of_getLast? heq)
  rw [lines, splitInclusive_of_not_mem h hne, List.map_singleton, stripLineEnd, stripSuffix_eq_none hlast]

end Base

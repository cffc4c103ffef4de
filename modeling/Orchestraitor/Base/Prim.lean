import Mathlib

/-!
# Primitive operations of the source language

Fixed-width counters are `Nat` with the saturating operations written out, text is `String`
worked on as its list of characters.

* `u32Max`, `u64Max`, `satAdd32`, `satAdd64`, `satMul64`   saturating arithmetic;
* `durationMax`, `satAddDuration`              a duration is a number of nanoseconds.
-/

namespace Base

def u32Max : Nat := 4294967295
def u64Max : Nat := 18446744073709551615

def satAdd32 (a b : Nat) : Nat := min (a + b) u32Max

def satAdd64 (a b : Nat) : Nat := min (a + b) u64Max

def satMul64 (a b : Nat) : Nat := min (a * b) u64Max

def durationMax : Nat := u64Max * 1000000000 + 999999999

def satAddDuration (a b : Nat) : Nat := min (a + b) durationMax

theorem satAdd32_eq {a b : Nat} (h : a + b ≤ u32Max) : satAdd32 a b = a + b := by
  rw [satAdd32]
  omega

theorem bind_ok {ε α β : Type} {x : Except ε α} {f : α → Except ε β} {b : β}
    (h : (x >>= f) = .ok b) : ∃ a, x = .ok a ∧ f a = .ok b := by
  cases x with
  | error => exact absurd h (by simp [bind, Except.bind])
  | ok a => exact ⟨a, rfl, h⟩

theorem ok_of_isSome {ε α : Type} {x : Except ε α} (h : x.toOption.isSome = true) :
    x = .ok (x.toOption.get h) := by
  cases x with
  | error => exact absurd h (by simp [Except.toOption])
  | ok => rfl

theorem find_of_key {α κ : Type} [DecidableEq κ] {key : α → κ} {l : List α}
    (h : ∀ a ∈ l, ∀ b ∈ l, key a = key b → a = b) {a : α} (ha : a ∈ l) :
    l.find? (fun b => key b = key a) = some a := by
  obtain ⟨b, hb⟩ : ∃ b, l.find? (fun b => key b = key a) = some b := by
    rw [← Option.isSome_iff_exists, List.find?_isSome]
    exact ⟨a, ha, by simp⟩
  have hkey : key b = key a := by simpa using List.find?_some hb
  rw [hb, h b (List.mem_of_find?_eq_some hb) a ha hkey]

def isWhitespace (c : Char) : Bool :=
  let n := c.toNat
  (9 ≤ n && n ≤ 13) || n == 0x20 || n == 0x85 || n == 0xA0 || n == 0x1680 ||
    (0x2000 ≤ n && n ≤ 0x200A) || n == 0x2028 || n == 0x2029 || n == 0x202F || n == 0x205F ||
    n == 0x3000

-- texts are compared character by character
instance lawfulBEqChars : LawfulBEq (List Char) := inferInstance

def trimEndList (l : List Char) : List Char := (l.reverse.dropWhile isWhitespace).reverse

def trimList (l : List Char) : List Char := trimEndList (l.dropWhile isWhitespace)

def trim (s : String) : String := String.ofList (trimList s.toList)

def isBlank (s : String) : Bool := (trimList s.toList).isEmpty

example : trim "  src/lib.rs \t" = "src/lib.rs" := by decide

end Base

import Mathlib

/-!
# Lossy decoding of UTF-8

`String::from_utf8_lossy`: the longest start of a character that goes wrong becomes one replacement
character.  The decoder takes the bytes one at a time; `Pending` is what it has read of the current
character.

* `decodeLossy_utf8`     whole characters are decoded to themselves, whatever comes after them.
-/

namespace Base

def utf8 (text : List Char) : List UInt8 := text.flatMap String.utf8EncodeChar

def replacementChar : Char := '�'

/-- the rest of a character: how many bytes, the range of the next one, the bits so far -/
structure Pending where
  more : Nat
  low : Nat
  high : Nat
  bits : Nat

def leadByte (b : Nat) : Option Pending :=
  if 0xC2 ≤ b ∧ b ≤ 0xDF then some ⟨0, 0x80, 0xBF, b - 0xC0⟩
  else if b = 0xE0 then some ⟨1, 0xA0, 0xBF, b - 0xE0⟩
  else if b = 0xED then some ⟨1, 0x80, 0x9F, b - 0xE0⟩
  else if 0xE1 ≤ b ∧ b ≤ 0xEF then some ⟨1, 0x80, 0xBF, b - 0xE0⟩
  else if b = 0xF0 then some ⟨2, 0x90, 0xBF, b - 0xF0⟩
  else if 0xF1 ≤ b ∧ b ≤ 0xF3 then some ⟨2, 0x80, 0xBF, b - 0xF0⟩
  else if b = 0xF4 then some ⟨2, 0x80, 0x8F, b - 0xF0⟩
  else none

def firstByte (b : Nat) : List Char × Option Pending :=
  if b ≤ 0x7F then ([Char.ofNat b], none)
  else match leadByte b with
    | none => ([replacementChar], none)
    | some p => ([], some p)

def decodeByte : Option Pending → Nat → List Char × Option Pending
  | none, b => firstByte b
  | some p, b =>
    if p.low ≤ b ∧ b ≤ p.high then
      let bits := p.bits * 64 + (b - 0x80)
      match p.more with
      | 0 => ([Char.ofNat bits], none)
      | more + 1 => ([], some ⟨more, 0x80, 0xBF, bits⟩)
    else (replacementChar :: (firstByte b).1, (firstByte b).2)

def decodeFrom : Option Pending → List UInt8 → List Char
  | none, [] => []
  | some _, [] => [replacementChar]
  | p, b :: bytes => (decodeByte p b.toNat).1 ++ decodeFrom (decodeByte p b.toNat).2 bytes

def decodeLossy (bytes : List UInt8) : List Char := decodeFrom none bytes

theorem decodeFrom_cons (p : Option Pending) (b : UInt8) (bytes : List UInt8) :
    decodeFrom p (b :: bytes) =
      (decodeByte p b.toNat).1 ++ decodeFrom (decodeByte p b.toNat).2 bytes := by
  cases p <;> rfl

theorem decodeFrom_first {n : Nat} (hn : n < 256) {p : Pending} (h : firstByte n = ([], some p))
    (bytes : List UInt8) : decodeFrom none (UInt8.ofNat n :: bytes) = decodeFrom (some p) bytes := by
  rw [decodeFrom_cons, UInt8.toNat_ofNat', Nat.mod_eq_of_lt hn]
  show (firstByte n).1 ++ decodeFrom (firstByte n).2 bytes = _
  rw [h]
  rfl

theorem decodeFrom_more {n more low high bits : Nat} (hn : n < 256) (hlow : low ≤ n) (hhigh : n ≤ high)
    (bytes : List UInt8) : decodeFrom (some ⟨more + 1, low, high, bits⟩) (UInt8.ofNat n :: bytes) =
      decodeFrom (some ⟨more, 0x80, 0xBF, bits * 64 + (n - 0x80)⟩) bytes := by
  rw [decodeFrom_cons, UInt8.toNat_ofNat', Nat.mod_eq_of_lt hn, decodeByte, if_pos ⟨hlow, hhigh⟩]
  rfl

theorem decodeFrom_last {n low high bits : Nat} (hn : n < 256) (hlow : low ≤ n) (hhigh : n ≤ high)
    (bytes : List UInt8) : decodeFrom (some ⟨0, low, high, bits⟩) (UInt8.ofNat n :: bytes) =
      Char.ofNat (bits * 64 + (n - 0x80)) :: decodeFrom none bytes := by
  rw [decodeFrom_cons, UInt8.toNat_ofNat', Nat.mod_eq_of_lt hn, decodeByte, if_pos ⟨hlow, hhigh⟩]
  rfl

theorem decodeFrom_utf8EncodeChar (c : Char) (bytes : List UInt8) :
    decodeFrom none (String.utf8EncodeChar c ++ bytes) = c :: decodeFrom none bytes := by
  obtain ⟨n, hn⟩ : ∃ n, c.val.toNat = n := ⟨_, rfl⟩
  have hc : Char.ofNat n = c := by
    rw [← hn]
    exact Char.ofNat_toNat c
  have hvalid : n < 0xD800 ∨ 0xDFFF < n ∧ n < 0x110000 := by
    rw [← hn]
    exact c.valid
  unfold String.utf8EncodeChar
  simp only [hn]
  split_ifs with h1 h2 h3
  · rw [List.singleton_append, decodeFrom_cons, UInt8.toNat_ofNat', Nat.mod_eq_of_lt (by omega)]
    show (firstByte n).1 ++ decodeFrom (firstByte n).2 bytes = _
    rw [firstByte, if_pos h1, hc]
    rfl
  · have hbits : (n / 64 % 32 + 192 - 0xC0) * 64 + (n % 64 + 128 - 0x80) = n := by omega
    have hlead : firstByte (n / 64 % 32 + 192) = ([], some ⟨0, 0x80, 0xBF, n / 64 % 32 + 192 - 0xC0⟩) := by
      rw [firstByte, if_neg (by omega), leadByte, if_pos (by omega)]
    simp only [List.cons_append, List.nil_append]
    rw [decodeFrom_first (by omega) hlead, decodeFrom_last (by omega) (by omega) (by omega), hbits, hc]
  · have hbits : ((n / 4096 % 16 + 224 - 0xE0) * 64 + (n / 64 % 64 + 128 - 0x80)) * 64 +
        (n % 64 + 128 - 0x80) = n := by omega
    -- the second byte is in range: no overlong form, no surrogate
    obtain ⟨low, high, hlead, hlow, hhigh⟩ : ∃ low high, firstByte (n / 4096 % 16 + 224) =
        ([], some ⟨1, low, high, n / 4096 % 16 + 224 - 0xE0⟩) ∧
        low ≤ n / 64 % 64 + 128 ∧ n / 64 % 64 + 128 ≤ high := by
      rw [firstByte, if_neg (by omega), leadByte, if_neg (by omega)]
      split_ifs
      · exact ⟨_, _, rfl, by omega, by omega⟩
      · exact ⟨_, _, rfl, by omega, by omega⟩
      · exact ⟨_, _, rfl, by omega, by omega⟩
      all_goals omega
    simp only [List.cons_append, List.nil_append]
    rw [decodeFrom_first (by omega) hlead, decodeFrom_more (by omega) hlow hhigh,
      decodeFrom_last (by omega) (by omega) (by omega), hbits, hc]
  · have hbits : (((n / 262144 % 8 + 240 - 0xF0) * 64 + (n / 4096 % 64 + 128 - 0x80)) * 64 +
        (n / 64 % 64 + 128 - 0x80)) * 64 + (n % 64 + 128 - 0x80) = n := by omega
    obtain ⟨low, high, hlead, hlow, hhigh⟩ : ∃ low high, firstByte (n / 262144 % 8 + 240) =
        ([], some ⟨2, low, high, n / 262144 % 8 + 240 - 0xF0⟩) ∧
        low ≤ n / 4096 % 64 + 128 ∧ n / 4096 % 64 + 128 ≤ high := by
      rw [firstByte, if_neg (by omega), leadByte, if_neg (by omega), if_neg (by omega), if_neg (by omega),
        if_neg (by omega)]
      split_ifs
      · exact ⟨_, _, rfl, by omega, by omega⟩
      · exact ⟨_, _, rfl, by omega, by omega⟩
      · exact ⟨_, _, rfl, by omega, by omega⟩
      · omega
    simp only [List.cons_append, List.nil_append]
    rw [decodeFrom_first (by omega) hlead, decodeFrom_more (by omega) hlow hhigh,
      decodeFrom_more (by omega) (by omega) (by omega), decodeFrom_last (by omega) (by omega) (by omega),
      hbits, hc]

theorem decodeLossy_utf8_append (text : List Char) (bytes : List UInt8) :
    decodeLossy (utf8 text ++ bytes) = text ++ decodeLossy bytes := by
  induction text with
  | nil => rfl
  | cons c _ ih =>
    rw [utf8, List.flatMap_cons, List.append_assoc]
    show decodeFrom none _ = _
    rw [decodeFrom_utf8EncodeChar]
    exact congrArg (c :: ·) ih

theorem decodeLossy_utf8 (text : List Char) : decodeLossy (utf8 text) = text := by
  have h := decodeLossy_utf8_append text []
  rwa [List.append_nil, show decodeLossy [] = [] from rfl, List.append_nil] at h

/-- what follows the bytes of whole characters is whole characters again -/
theorem utf8_split {text text' : List Char} {bytes : List UInt8} (h : utf8 text ++ bytes = utf8 text') :
    ∃ rest, text' = text ++ rest ∧ bytes = utf8 rest := by
  have htext : text' = text ++ decodeLossy bytes := by
    rw [← decodeLossy_utf8_append, h, decodeLossy_utf8]
  refine ⟨_, htext, ?_⟩
  rw [htext, utf8, utf8, List.flatMap_append] at h
  exact List.append_cancel_left h

end Base

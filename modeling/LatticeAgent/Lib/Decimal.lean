import Mathlib.Data.List.Basic

/-! # Decimal numbers in texts

`scanNat` and `scanInt` read a number off the front of a text, as far as its digits go. What
`Nat.toDigits` and `itoa` write in front of anything but a digit, they read back. -/

namespace Decimal

open List

/-- Digits at the front of a text, and what follows them. -/
def scanNat (s : List Char) : Option (Nat × List Char) :=
  if s.takeWhile Char.isDigit = [] then none
  else some (Nat.ofDigitChars 10 (s.takeWhile Char.isDigit) 0, s.dropWhile Char.isDigit)

def itoa : Int → List Char
  | .ofNat n => Nat.toDigits 10 n
  | .negSucc n => '-' :: Nat.toDigits 10 (n + 1)

/-- A number with or without a sign. -/
def scanInt : List Char → Option (Int × List Char)
  | '-' :: s => (scanNat s).map fun r => (-(r.1 : Int), r.2)
  | '+' :: s => (scanNat s).map fun r => ((r.1 : Int), r.2)
  | s => (scanNat s).map fun r => ((r.1 : Int), r.2)

variable {c : Char} {rest : List Char}

theorem isDigit_toDigits {n : Nat} (h : c ∈ Nat.toDigits 10 n) : c.isDigit :=
  Nat.isDigit_of_mem_toDigits (by decide) (by decide) h

theorem not_mem_toDigits {n : Nat} (h : c.isDigit = false) : c ∉ Nat.toDigits 10 n :=
  fun hc => by simp [isDigit_toDigits hc] at h

theorem not_mem_itoa {i : Int} (h : c.isDigit = false) (hc : c ≠ '-') : c ∉ itoa i := by
  cases i with
  | ofNat n => exact not_mem_toDigits h
  | negSucc n =>
    rw [itoa, mem_cons, not_or]
    exact ⟨hc, not_mem_toDigits h⟩

/-- The text goes on with something else than a digit, or ends. -/
def Stops (rest : List Char) : Prop := ∀ c, rest.head? = some c → c.isDigit = false

theorem scanNat_toDigits (n : Nat) (h : Stops rest) :
    scanNat (Nat.toDigits 10 n ++ rest) = some (n, rest) := by
  have hall : ∀ c ∈ Nat.toDigits 10 n, c.isDigit = true := fun c => isDigit_toDigits
  have hrest : rest.takeWhile Char.isDigit = [] ∧ rest.dropWhile Char.isDigit = rest := by
    cases rest with
    | nil => exact ⟨rfl, rfl⟩
    | cons c rest => simp [h c rfl]
  unfold scanNat
  rw [takeWhile_append_of_pos hall, dropWhile_append_of_pos hall, hrest.1, hrest.2,
    append_nil, if_neg Nat.toDigits_ne_nil, Nat.ofDigitChars_ten_toDigits]

theorem scanInt_digits {s : List Char} (h : ∀ c, s.head? = some c → c.isDigit) :
    scanInt s = (scanNat s).map fun r => ((r.1 : Int), r.2) := by
  unfold scanInt
  split
  · exact absurd (h _ rfl) (by decide)
  · exact absurd (h _ rfl) (by decide)
  · rfl

theorem scanInt_itoa (i : Int) (h : Stops rest) : scanInt (itoa i ++ rest) = some (i, rest) := by
  cases i with
  | negSucc n =>
    simp only [itoa, cons_append, scanInt, scanNat_toDigits (n + 1) h, Option.map_some]
    rfl
  | ofNat n =>
    have hhead : ∀ c, (Nat.toDigits 10 n ++ rest).head? = some c → c.isDigit = true := by
      intro c hc
      rw [head?_append_of_ne_nil _ Nat.toDigits_ne_nil] at hc
      exact isDigit_toDigits (mem_of_head? hc)
    rw [itoa, scanInt_digits hhead, scanNat_toDigits n h]
    rfl

/-- The number a whole text is. -/
def readInt (s : List Char) : Option Int :=
  match scanInt s with
  | some (i, []) => some i
  | _ => none

/-- A text of digits is the number they write. -/
theorem readInt_digits {s : List Char} (hne : s ≠ []) (h : ∀ c ∈ s, c.isDigit) :
    readInt s = some ((Nat.ofDigitChars 10 s 0 : Nat) : Int) := by
  have hscan : scanNat s = some (Nat.ofDigitChars 10 s 0, []) := by
    have htake : (s ++ []).takeWhile Char.isDigit = s ++ [] := takeWhile_append_of_pos h
    have hdrop : (s ++ []).dropWhile Char.isDigit = [] := dropWhile_append_of_pos h
    rw [append_nil] at htake hdrop
    simp [scanNat, htake, hdrop, hne]
  rw [readInt, scanInt_digits fun c hc => h c (mem_of_head? hc), hscan]
  rfl

theorem readInt_itoa (i : Int) : readInt (itoa i) = some i := by
  have h := scanInt_itoa i (show Stops [] from fun c hc => by cases hc)
  rw [append_nil] at h
  rw [readInt, h]

theorem itoa_injective : Function.Injective itoa := by
  intro i j h
  have hread := congrArg readInt h
  rw [readInt_itoa, readInt_itoa] at hread
  exact Option.some.inj hread

end Decimal

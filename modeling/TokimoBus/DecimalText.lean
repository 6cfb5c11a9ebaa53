import Mathlib.Data.Nat.Digits.Defs

/-!
Decimal text of an unsigned number with a bound, read digit by digit with a check for overflow
at each. What is written of a number below the bound is read back.
-/
namespace DecimalText
variable {bound acc n : Nat} {cs : List Char}

def digit (c : Char) : Option Nat := if c.isDigit then some (c.toNat - 48) else none

def readDigits (bound : Nat) : Nat → List Char → Option Nat
  | acc, [] => some acc
  | acc, c :: cs =>
    match digit c with
    | some d => if acc * 10 + d < bound then readDigits bound (acc * 10 + d) cs else none
    | none => none

/-- A plus sign may stand before the digits, but not alone. -/
def unsign : List Char → List Char
  | '+' :: c :: cs => c :: cs
  | cs => cs

def parse (bound : Nat) (text : String) : Option Nat :=
  match text.toList with
  | [] => none
  | cs => readDigits bound 0 (unsign cs)

theorem readDigits_append (xs ys : List Char) :
    readDigits bound acc (xs ++ ys) =
      (readDigits bound acc xs).bind fun v => readDigits bound v ys := by
  induction xs generalizing acc with
  | nil => rfl
  | cons c xs ih =>
    simp only [List.cons_append, readDigits]
    cases digit c with
    | none => rfl
    | some d =>
      simp only
      split
      · exact ih
      · rfl

theorem digit_digitChar {d : Nat} (small : d < 10) : digit d.digitChar = some d := by
  have all : ∀ d : Fin 10, digit (Nat.digitChar d.val) = some d.val := by decide
  exact all ⟨d, small⟩

theorem readDigits_toDigits (fits : n < bound) : readDigits bound 0 (Nat.toDigits 10 n) = some n := by
  induction n using Nat.strongRecOn with
  | ind n ih =>
    by_cases small : n < 10
    · rw [Nat.toDigits_of_lt_base small]
      simp [readDigits, digit_digitChar small, fits]
    · have rest := ih (n / 10) (by omega) (by omega)
      have last := digit_digitChar (Nat.mod_lt n (by decide : 10 > 0))
      have whole : n / 10 * 10 + n % 10 = n := by omega
      rw [Nat.toDigits_of_base_le (by decide) (by omega), readDigits_append, rest]
      simp [readDigits, last, whole, fits]

theorem unsign_digit {c : Char} (number : c.isDigit) : unsign (c :: cs) = c :: cs := by
  unfold unsign
  split
  · rename_i same
    cases same
    cases number
  · rfl

theorem parse_toString (fits : n < bound) : parse bound (toString n) = some n := by
  have digits : (toString n).toList = Nat.toDigits 10 n := Nat.toList_repr
  have read := readDigits_toDigits fits
  unfold parse
  rw [digits]
  cases shape : Nat.toDigits 10 n with
  | nil => exact absurd shape Nat.toDigits_ne_nil
  | cons c cs =>
    have number : c.isDigit := Nat.isDigit_of_mem_toDigits (b := 10) (n := n) (by decide) (by decide)
      (by simp [shape])
    rw [shape] at read
    simp only [unsign_digit number]
    exact read

end DecimalText

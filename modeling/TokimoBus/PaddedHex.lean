import Mathlib.Data.Nat.Digits.Defs

/-!
Lower-case hexadecimal text padded with zeros to a minimum width. The padding never
hides a digit: the text determines the number, and it has exactly the minimum width
for every number that fits in it.
-/
namespace PaddedHex

def hexPadded (width n : Nat) : String :=
  String.ofList (List.leftpad width '0' (Nat.toDigits 16 n))

def hexValue (c : Char) : Nat := if c.isDigit then c.toNat - 48 else c.toNat - 87

def hexNumber (cs : List Char) : Nat := cs.foldl (fun acc c => acc * 16 + hexValue c) 0

theorem hexValue_digitChar {d : Nat} (small : d < 16) : hexValue d.digitChar = d := by
  have all : ∀ d : Fin 16, hexValue (Nat.digitChar d.val) = d.val := by decide
  exact all ⟨d, small⟩

theorem hexNumber_toDigits (n : Nat) : hexNumber (Nat.toDigits 16 n) = n := by
  induction n using Nat.strongRecOn with
  | ind n ih =>
    by_cases small : n < 16
    · rw [Nat.toDigits_of_lt_base small]
      simp [hexNumber, hexValue_digitChar small]
    · rw [Nat.toDigits_of_base_le (by decide) (by omega)]
      have rest := ih (n / 16) (by omega)
      simp only [hexNumber] at rest
      simp only [hexNumber, List.foldl_append, rest, List.foldl_cons, List.foldl_nil,
        hexValue_digitChar (Nat.mod_lt n (by decide : 16 > 0))]
      omega

theorem hexNumber_zeros (m : Nat) (cs : List Char) :
    hexNumber (List.replicate m '0' ++ cs) = hexNumber cs := by
  induction m with
  | zero => rfl
  | succ m ih =>
    rw [List.replicate_succ, List.cons_append]
    exact ih

theorem hexPadded_injective {width m n : Nat} (same : hexPadded width m = hexPadded width n) :
    m = n := by
  have digits := congrArg (fun s => hexNumber s.toList) same
  simpa [hexPadded, List.leftpad, hexNumber_zeros, hexNumber_toDigits] using digits

theorem hexPadded_length {width n : Nat} (positive : 0 < width) (fits : n < 16 ^ width) :
    (hexPadded width n).toList.length = width := by
  have short := Nat.toDigits_length 16 n width positive fits
  simp only [hexPadded, String.toList_ofList, List.leftpad, List.length_append,
    List.length_replicate]
  omega

end PaddedHex

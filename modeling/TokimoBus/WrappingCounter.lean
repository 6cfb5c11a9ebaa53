import Mathlib.Algebra.Ring.Nat
import TokimoBus.LabelledRuns

/-!
A 64-bit counter that some steps of a transition system take a number from. The
counter wraps round, so the numbers taken along a run are pairwise distinct
exactly as long as fewer than 2^64 of them have been taken before.
-/
namespace WrappingCounter
open LabelledRuns
variable {σ α : Type} {step : σ → α → σ → Prop} {counter : σ → UInt64}
  {takes : α → Option UInt64} {offset : UInt64} {s t : σ} {as : List α} {a b : α} {v : UInt64}

/-- A step that takes a number gets the counter's value plus `offset` and increments it. -/
structure Counts (step : σ → α → σ → Prop) (counter : σ → UInt64) (takes : α → Option UInt64)
    (offset : UInt64) : Prop where
  take : ∀ {s a t v}, step s a t → takes a = some v →
    v = counter s + offset ∧ counter t = counter s + 1
  keep : ∀ {s a t}, step s a t → takes a = none → counter t = counter s

def taken (takes : α → Option UInt64) (as : List α) : Nat :=
  as.countP fun a => (takes a).isSome

theorem taken_append (as bs : List α) :
    taken takes (as ++ bs) = taken takes as + taken takes bs := by
  simp [taken]

theorem taken_take_le (as : List α) (i : Nat) : taken takes (as.take i) ≤ taken takes as := by
  have parts := @taken_append _ takes (as.take i) (as.drop i)
  rw [List.take_append_drop] at parts
  omega

theorem counter_after (laws : Counts step counter takes offset) (run : Run step s as t) :
    counter t = counter s + UInt64.ofNat (taken takes as) := by
  induction run with
  | nil => simp [taken]
  | @snoc as v w a before last ih =>
    rw [taken_append]
    cases number : takes a with
    | none =>
      rw [laws.keep last number, ih]
      simp [taken, number]
    | some n =>
      rw [(laws.take last number).2, ih]
      simp [taken, number, UInt64.ofNat_add, UInt64.add_assoc]

theorem taken_value (laws : Counts step counter takes offset) (run : Run step s as t) {i : Nat}
    (here : as[i]? = some a) (number : takes a = some v) :
    v = counter s + UInt64.ofNat (taken takes (as.take i)) + offset := by
  obtain ⟨x, y, before, one, _⟩ := run_at run here
  rw [(laws.take one number).1, counter_after laws before]

theorem taken_grows {i j : Nat} (here : as[i]? = some a) (number : takes a = some v)
    (order : i < j) : taken takes (as.take i) < taken takes (as.take j) := by
  obtain ⟨inside, value⟩ := List.getElem?_eq_some_iff.mp here
  have next : taken takes (as.take (i + 1)) = taken takes (as.take i) + 1 := by
    rw [← List.take_append_getElem inside, taken_append, value]
    simp [taken, number]
  have later : taken takes ((as.take j).take (i + 1)) ≤ taken takes (as.take j) :=
    taken_take_le _ _
  rw [List.take_take, Nat.min_eq_left (by omega)] at later
  omega

theorem ofNat_inj_below {m n : Nat} (hm : m < 2 ^ 64) (hn : n < 2 ^ 64)
    (same : UInt64.ofNat m = UInt64.ofNat n) : m = n := by
  have values := congrArg UInt64.toNat same
  rw [UInt64.toNat_ofNat', UInt64.toNat_ofNat', Nat.mod_eq_of_lt hm, Nat.mod_eq_of_lt hn] at values
  exact values

/-- With at most 2^64 numbers taken, a number names the step that took it. -/
theorem taken_once (laws : Counts step counter takes offset) (run : Run step s as t)
    (few : taken takes as ≤ 2 ^ 64) {i j : Nat} (here : as[i]? = some a)
    (na : takes a = some v) (there : as[j]? = some b) (nb : takes b = some v) : i = j := by
  have ordered : ∀ {i j : Nat} {a b : α}, as[i]? = some a → takes a = some v →
      as[j]? = some b → takes b = some v → ¬ i < j := by
    intro i j a b here na there nb order
    have first := taken_value laws run here na
    have second := taken_value laws run there nb
    have grows := taken_grows here na order
    have last := taken_grows there nb (Nat.lt_add_one j)
    have whole := @taken_take_le _ takes as (j + 1)
    have equal := first.symm.trans second
    rw [UInt64.add_left_inj, UInt64.add_right_inj] at equal
    have same := ofNat_inj_below (by omega) (by omega) equal
    omega
  have left := ordered here na there nb
  have right := ordered there nb here na
  omega

end WrappingCounter

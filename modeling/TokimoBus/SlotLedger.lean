import TokimoBus.LabelledRuns
import Mathlib.Logic.Function.Basic

/-!
A table with one slot for each key. Some steps of a transition system fill a slot,
replacing what it held, and others empty it. What a full slot holds was put there
by the latest step that touched it, so every successful taking of a slot's content
uses up one filling of its own.
-/
namespace SlotLedger
open LabelledRuns
variable {σ α κ ν : Type} [DecidableEq κ] {step : σ → α → σ → Prop} {slot : σ → κ → Option ν}
  {touch : α → Option (κ × Option ν)} {s t : σ} {as : List α} {a b : α} {k : κ} {v : ν}

/-- `touch` names the slot a step writes and the content it leaves there. -/
structure Ledger (step : σ → α → σ → Prop) (slot : σ → κ → Option ν)
    (touch : α → Option (κ × Option ν)) : Prop where
  write : ∀ {s a t k x}, step s a t → touch a = some (k, x) →
    slot t = Function.update (slot s) k x
  keep : ∀ {s a t}, step s a t → touch a = none → slot t = slot s

def touched (f : κ → Option ν) : Option (κ × Option ν) → κ → Option ν
  | some (k, x) => Function.update f k x
  | none => f

theorem ledger_of (law : ∀ {s a t}, step s a t → slot t = touched (slot s) (touch a)) :
    Ledger step slot touch where
  write := by
    intro s a t k x h named
    rw [law h, named]
    rfl
  keep := by
    intro s a t h quiet
    rw [law h, quiet]
    rfl

def Touches (touch : α → Option (κ × Option ν)) (k : κ) (a : α) : Prop :=
  ∃ x, touch a = some (k, x)

theorem untouched_step (laws : Ledger step slot touch) (h : step s a t)
    (free : ¬ Touches touch k a) : slot t k = slot s k := by
  cases written : touch a with
  | none => rw [laws.keep h written]
  | some jx =>
    have ne : k ≠ jx.1 := by
      rintro rfl
      exact free ⟨jx.2, written⟩
    rw [laws.write h written, Function.update_of_ne ne]

theorem untouched_run (laws : Ledger step slot touch) (run : Run step s as t)
    (free : ∀ a ∈ as, ¬ Touches touch k a) : slot t k = slot s k := by
  induction run with
  | nil => rfl
  | @snoc as x y a before last ih =>
    rw [untouched_step laws last (free a (by simp))]
    exact ih fun b mem => free b (by simp [mem])

theorem slot_latest (laws : Ledger step slot touch) (run : Run step s as t) :
    slot t k = slot s k ∧ (∀ a ∈ as, ¬ Touches touch k a) ∨
      ∃ front a rest, as = front ++ a :: rest ∧ touch a = some (k, slot t k) ∧
        ∀ b ∈ rest, ¬ Touches touch k b := by
  induction run with
  | nil => exact Or.inl ⟨rfl, by simp⟩
  | @snoc as x y a before last ih =>
    by_cases touched : Touches touch k a
    · obtain ⟨c, written⟩ := touched
      have now : slot y k = c := by rw [laws.write last written, Function.update_self]
      exact Or.inr ⟨as, a, [], rfl, by rw [now, written], by simp⟩
    · rw [untouched_step laws last touched]
      rcases ih with ⟨same, free⟩ | ⟨front, b, rest, rfl, written, free⟩
      · refine Or.inl ⟨same, fun b mem => ?_⟩
        rcases List.mem_append.mp mem with old | new
        · exact free b old
        · rwa [List.mem_singleton.mp new]
      · refine Or.inr ⟨front, b, rest ++ [a], by simp, written, fun c mem => ?_⟩
        rcases List.mem_append.mp mem with old | new
        · exact free c old
        · rwa [List.mem_singleton.mp new]

/-- Position `j` filled the slot of `k` with `v`, and nothing touched the slot before `i`. -/
def FilledBy (touch : α → Option (κ × Option ν)) (as : List α) (k : κ) (v : ν) (i j : Nat) :
    Prop :=
  j < i ∧ (∃ b, as[j]? = some b ∧ touch b = some (k, some v)) ∧
    ∀ m c, j < m → m < i → as[m]? = some c → ¬ Touches touch k c

/-- What a slot holds was put there by an earlier step, the latest on that slot. -/
theorem filled_before (laws : Ledger step slot touch) (start : slot s k = none) {i : Nat}
    (run : Run step s (as.take i) t) (bound : i ≤ as.length) (full : slot t k = some v) :
    ∃ j, FilledBy touch as k v i j := by
  rcases slot_latest (k := k) laws run with ⟨same, _⟩ | ⟨front, b, rest, parts, written, free⟩
  · rw [same, start] at full
    cases full
  · rw [full] at written
    have size : front.length + 1 + rest.length = i := by
      have lengths := congrArg List.length parts
      simp only [List.length_take, List.length_append, List.length_cons] at lengths
      omega
    have inside : ∀ m, m < i → as[m]? = (front ++ b :: rest)[m]? := by
      intro m small
      rw [← parts, List.getElem?_take_of_lt small]
    refine ⟨front.length, by omega, ⟨b, by rw [inside _ (by omega)]; simp, written⟩, ?_⟩
    intro m c after before' there
    rw [inside m before', List.getElem?_append_right (by omega)] at there
    have shift : m - front.length = (m - front.length - 1) + 1 := by omega
    rw [shift, List.getElem?_cons_succ] at there
    exact free c (List.mem_of_getElem? there)

theorem found_from_latest (laws : Ledger step slot touch) (run : Run step s as t)
    (start : slot s k = none) {i : Nat} (here : as[i]? = some a)
    (found : ∀ x y, Reachable step s x → step x a y → slot x k = some v) :
    ∃ j, FilledBy touch as k v i j := by
  obtain ⟨x, y, before, one, _⟩ := run_at run here
  have bound := (List.getElem?_eq_some_iff.mp here).1
  exact filled_before laws start before (Nat.le_of_lt bound) (found x y ⟨_, before⟩ one)

omit [DecidableEq κ] in
theorem fillings_distinct {k k' : κ} {v v' : ν} {i i' j : Nat} (first : FilledBy touch as k v i j)
    (second : FilledBy touch as k' v' i' j) (here : as[i]? = some a)
    (empties : touch a = some (k, none)) (there : as[i']? = some b)
    (empties' : touch b = some (k', none)) : i = i' := by
  obtain ⟨before, ⟨c, at_j, filled⟩, clean⟩ := first
  obtain ⟨before', ⟨d, at_j', filled'⟩, clean'⟩ := second
  rw [at_j] at at_j'
  cases at_j'
  rw [filled] at filled'
  simp only [Option.some.injEq, Prod.mk.injEq] at filled'
  obtain ⟨rfl, _⟩ := filled'
  rcases Nat.lt_trichotomy i i' with earlier | same | later
  · exact absurd ⟨_, empties⟩ (clean' i a before earlier here)
  · exact same
  · exact absurd ⟨_, empties'⟩ (clean i' b before' later there)

theorem empty_since (laws : Ledger step slot touch) (run : Run step s as t) {i j : Nat}
    (order : j < i) (there : as[j]? = some b) (empties : touch b = some (k, none))
    (unfilled : ∀ m c, j < m → m < i → as[m]? = some c → ∀ v, touch c ≠ some (k, some v))
    (here : as[i]? = some a) :
    ∃ x y, Run step s (as.take i) x ∧ step x a y ∧ slot x k = none := by
  obtain ⟨x, y, upto, one, _⟩ := run_at run here
  have short : (as.take i)[j]? = some b := by rwa [List.getElem?_take_of_lt order]
  obtain ⟨p, q, _, first, rest⟩ := run_at upto short
  refine ⟨x, y, upto, one, ?_⟩
  have base : slot q k = none := by rw [laws.write first empties, Function.update_self]
  rcases slot_latest (k := k) laws rest with ⟨same, _⟩ | ⟨front, c, tail, parts, written, _⟩
  · rw [same, base]
  · cases content : slot x k with
    | none => rfl
    | some v =>
      rw [content] at written
      have place : ((as.take i).drop (j + 1))[front.length]? = some c := by
        rw [parts]
        simp
      obtain ⟨before, found⟩ := between_index place
      exact absurd written (unfilled _ c (by omega) before found v)

theorem found_of_filled (laws : Ledger step slot touch) (run : Run step s as t) {i j : Nat}
    (filled : FilledBy touch as k v i j) (here : as[i]? = some a) :
    ∃ x y, Run step s (as.take i) x ∧ step x a y ∧ slot x k = some v := by
  obtain ⟨order, ⟨b, there, written⟩, clean⟩ := filled
  obtain ⟨x, y, upto, one, _⟩ := run_at run here
  have short : (as.take i)[j]? = some b := by rwa [List.getElem?_take_of_lt order]
  obtain ⟨p, q, _, first, rest⟩ := run_at upto short
  refine ⟨x, y, upto, one, ?_⟩
  rw [untouched_run (k := k) laws rest, laws.write first written, Function.update_self]
  intro c mem
  obtain ⟨m, later, before, found⟩ := mem_between mem
  exact clean m c later before found

theorem full_iff_untouched (laws : Ledger step slot touch) (run : Run step s as t) {j : Nat}
    (here : as[j]? = some a) (written : touch a = some (k, some v))
    (once : ∀ m b, as[m]? = some b → touch b = some (k, some v) → m = j) :
    slot t k = some v ↔ ∀ m b, j < m → as[m]? = some b → ¬ Touches touch k b := by
  obtain ⟨x, y, _, one, rest⟩ := run_at run here
  constructor
  · intro full m b later there touched
    rcases slot_latest (k := k) laws rest with ⟨_, free⟩ | ⟨front, c, tail, parts, last, _⟩
    · exact free b (index_mem_drop later there) touched
    · have found : (as.drop (j + 1))[front.length]? = some c := by
        rw [parts]
        simp
      rw [List.getElem?_drop] at found
      rw [full] at last
      have same := once _ c found last
      omega
  · intro free
    have kept := untouched_run (k := k) laws rest fun b mem => by
      obtain ⟨n, found⟩ := List.mem_iff_getElem?.mp mem
      rw [List.getElem?_drop] at found
      exact free _ b (by omega) found
    rw [kept, laws.write one written, Function.update_self]

/-- Each step that finds a slot full and empties it uses up a filling of that slot. -/
theorem used_le_filled (laws : Ledger step slot touch) (run : Run step s as t)
    (uses : α → Bool) (fills : α → Bool) (start : slot s k = none)
    (use_empties : ∀ x a y, step x a y → uses a = true →
      touch a = some (k, none) ∧ slot x k ≠ none)
    (fill_iff : ∀ a, fills a = true ↔ ∃ v, touch a = some (k, some v)) :
    as.countP uses + (if (slot t k).isSome then 1 else 0) ≤ as.countP fills := by
  induction run with
  | nil => simp [start]
  | @snoc as x y a before last ih =>
    simp only [List.countP_append, List.countP_singleton]
    by_cases touched : Touches touch k a
    · obtain ⟨c, written⟩ := touched
      have now : slot y k = c := by rw [laws.write last written, Function.update_self]
      rw [now]
      cases c with
      | some v =>
        have fill : fills a = true := (fill_iff a).mpr ⟨v, written⟩
        have no_use : ¬ uses a = true := by
          intro use
          have := (use_empties x a y last use).1
          rw [written] at this
          simp at this
        simp only [fill, no_use, Option.isSome_some, ↓reduceIte, Bool.false_eq_true]
        split at ih <;> omega
      | none =>
        have no_fill : ¬ fills a = true := by
          intro fill
          obtain ⟨v, other⟩ := (fill_iff a).mp fill
          rw [written] at other
          simp at other
        by_cases use : uses a = true
        · have full := (use_empties x a y last use).2
          rw [if_pos (Option.isSome_iff_ne_none.mpr full)] at ih
          simp only [use, no_fill, Option.isSome_none, ↓reduceIte]
          simpa using ih
        · simp only [use, no_fill, Option.isSome_none, ↓reduceIte, Bool.false_eq_true]
          split at ih <;> omega
    · have no_use : ¬ uses a = true := fun use => touched ⟨_, (use_empties x a y last use).1⟩
      have no_fill : ¬ fills a = true := fun fill => by
        obtain ⟨v, written⟩ := (fill_iff a).mp fill
        exact touched ⟨_, written⟩
      rw [untouched_step laws last touched]
      simpa [no_use, no_fill] using ih

end SlotLedger

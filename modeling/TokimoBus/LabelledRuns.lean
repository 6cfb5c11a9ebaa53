import Mathlib.Data.List.Basic
import Mathlib.Data.List.Induction
import Mathlib.Logic.Function.Basic

/-!
Finite runs of a labelled transition relation and the rules for reasoning about
them: invariants, facts that once true stay true, events that can fire only
once, and runs whose steps all meet a side condition. A trace lists the labels
in the order in which they happened. Where a state holds a family of tasks, a step
moves one of them and leaves the others where they were.
-/
namespace LabelledRuns
variable {σ τ α β : Type} {step : σ → α → σ → Prop} {s t u : σ} {as bs : List α} {a b : α}

inductive Run (step : σ → α → σ → Prop) (start : σ) : List α → σ → Prop where
  | nil : Run step start [] start
  | snoc {as : List α} {s t : σ} {a : α}
      (before : Run step start as s) (last : step s a t) : Run step start (as ++ [a]) t

def Reachable (step : σ → α → σ → Prop) (start s : σ) : Prop :=
  ∃ as, Run step start as s

/-- Once true of a state reached from `start`, true of every later one. -/
def Stable (step : σ → α → σ → Prop) (start : σ) (p : σ → Prop) : Prop :=
  ∀ s a t, Reachable step start s → step s a t → p s → p t

def Guarded (step : σ → α → σ → Prop) (ok : σ → α → Prop) (s : σ) (a : α) (t : σ) : Prop :=
  step s a t ∧ ok s a

def Through (step : σ → α → σ → Prop) (p : σ → Prop) (s : σ) (a : α) (t : σ) : Prop :=
  step s a t ∧ p t

theorem run_single (h : step s a t) : Run step s [a] t := by
  have run : Run step s ([] ++ [a]) t := Run.nil.snoc h
  exact run

theorem run_append (first : Run step s as t) (second : Run step t bs u) :
    Run step s (as ++ bs) u := by
  induction second with
  | nil => simpa using first
  | snoc _ last ih =>
    rw [← List.append_assoc]
    exact ih.snoc last

theorem run_cons (first : step s a t) (rest : Run step t as u) : Run step s (a :: as) u :=
  run_append (run_single first) rest

theorem run_nil_inv (run : Run step s [] t) : t = s := by
  generalize eq : [] = as at run
  cases run with
  | nil => rfl
  | snoc before last => simp at eq

theorem run_snoc_inv (run : Run step s (as ++ [a]) u) :
    ∃ t, Run step s as t ∧ step t a u := by
  generalize eq : as ++ [a] = bs at run
  cases run with
  | nil => simp at eq
  | snoc before last =>
    obtain ⟨rfl, same⟩ := List.append_inj' eq rfl
    cases same
    exact ⟨_, before, last⟩

theorem run_split (run : Run step s (as ++ bs) u) :
    ∃ t, Run step s as t ∧ Run step t bs u := by
  induction bs using List.reverseRecOn generalizing u with
  | nil => exact ⟨u, by simpa using run, Run.nil⟩
  | append_singleton bs b ih =>
    rw [← List.append_assoc] at run
    obtain ⟨v, before, last⟩ := run_snoc_inv run
    obtain ⟨t, left, right⟩ := ih before
    exact ⟨t, left, right.snoc last⟩

theorem parts_at {i : Nat} (here : as[i]? = some a) :
    as.take i ++ ([a] ++ as.drop (i + 1)) = as := by
  obtain ⟨inside, value⟩ := List.getElem?_eq_some_iff.mp here
  rw [← value, List.singleton_append, ← List.drop_eq_getElem_cons inside, List.take_append_drop]

theorem run_unique (run : Run step s as t) (run' : Run step s as u)
    (unique : ∀ {s t u a}, step s a t → step s a u → t = u) : t = u := by
  induction run generalizing u with
  | nil => exact (run_nil_inv run').symm
  | snoc _ last ih =>
    obtain ⟨v, before, last'⟩ := run_snoc_inv run'
    rw [← ih before] at last'
    exact unique last last'

/-- The step that a position of the trace stands for, with the runs around it. -/
theorem run_at (run : Run step s as u) {i : Nat} (here : as[i]? = some a) :
    ∃ v w, Run step s (as.take i) v ∧ step v a w ∧ Run step w (as.drop (i + 1)) u := by
  have run' := run
  rw [← parts_at here] at run'
  obtain ⟨v, before, rest⟩ := run_split run'
  obtain ⟨w, one, after⟩ := run_split rest
  have alone : Run step v ([] ++ [a]) w := one
  obtain ⟨v', start, last⟩ := run_snoc_inv alone
  rw [run_nil_inv start] at last
  exact ⟨v, w, before, last, after⟩

theorem take_index {i j : Nat} (here : (as.take i)[j]? = some a) : j < i ∧ as[j]? = some a := by
  have bound := (List.getElem?_eq_some_iff.mp here).1
  rw [List.length_take] at bound
  have small : j < i := by omega
  exact ⟨small, by rwa [List.getElem?_take_of_lt small] at here⟩

theorem mem_take_index {i : Nat} (mem : a ∈ as.take i) : ∃ j, j < i ∧ as[j]? = some a := by
  obtain ⟨j, found⟩ := List.mem_iff_getElem?.mp mem
  exact ⟨j, take_index found⟩

theorem between_index {i j n : Nat} (here : ((as.take j).drop i)[n]? = some a) :
    i + n < j ∧ as[i + n]? = some a := by
  rw [List.getElem?_drop] at here
  exact take_index here

theorem index_between {i j n : Nat} (low : i ≤ n) (high : n < j) (here : as[n]? = some a) :
    ((as.take j).drop i)[n - i]? = some a := by
  rw [List.getElem?_drop, Nat.add_sub_cancel' low, List.getElem?_take_of_lt high, here]

theorem mem_between {i j : Nat} (mem : a ∈ (as.take j).drop i) :
    ∃ n, i ≤ n ∧ n < j ∧ as[n]? = some a := by
  obtain ⟨n, found⟩ := List.mem_iff_getElem?.mp mem
  obtain ⟨before, there⟩ := between_index found
  exact ⟨i + n, Nat.le_add_right i n, before, there⟩

theorem between_mem {i j n : Nat} (low : i ≤ n) (high : n < j) (here : as[n]? = some a) :
    a ∈ (as.take j).drop i :=
  List.mem_of_getElem? (index_between low high here)

theorem index_mem_drop {i j : Nat} (later : i < j) (here : as[j]? = some a) :
    a ∈ as.drop (i + 1) := by
  apply List.mem_of_getElem? (i := j - (i + 1))
  rw [List.getElem?_drop, ← here]
  congr 1
  omega

theorem reachable_step (h : Reachable step s t) (last : step t a u) : Reachable step s u := by
  obtain ⟨as, run⟩ := h
  exact ⟨as ++ [a], run.snoc last⟩

theorem reachable_run (h : Reachable step s t) (run : Run step t as u) :
    Reachable step s u := by
  obtain ⟨bs, first⟩ := h
  exact ⟨bs ++ as, run_append first run⟩

theorem run_history {p : List α → σ → Prop} (start : p [] s)
    (keeps : ∀ as t a u, Run step s as t → step t a u → p as t → p (as ++ [a]) u)
    (run : Run step s as t) : p as t := by
  induction run with
  | nil => exact start
  | snoc before last ih => exact keeps _ _ _ _ before last ih

theorem reachable_invariant {p : σ → Prop} (start : p s) (keeps : Stable step s p)
    (h : Reachable step s t) : p t := by
  obtain ⟨as, run⟩ := h
  exact run_history (p := fun _ t => p t) start
    (fun as t a u before last ih => keeps t a u ⟨as, before⟩ last ih) run

theorem stable_run {p : σ → Prop} (keeps : Stable step s p) (h : Reachable step s t)
    (run : Run step t as u) (now : p t) : p u := by
  induction run with
  | nil => exact now
  | snoc before last ih => exact keeps _ _ _ (reachable_run h before) last ih

/-- What an event establishes and every step keeps still holds when a later event happens. -/
theorem holds_between {p : σ → Prop} (keeps : Stable step s p) (run : Run step s as u)
    {i j : Nat} (here : as[i]? = some a) (there : as[j]? = some b) (order : i < j)
    (fires : ∀ v w, Reachable step s v → step v a w → p w) :
    ∃ v w, Run step s (as.take j) v ∧ step v b w ∧ Run step w (as.drop (j + 1)) u ∧ p v := by
  obtain ⟨v, w, upto, one, after⟩ := run_at run there
  have short : (as.take j)[i]? = some a := by
    rw [List.getElem?_take_of_lt order]
    exact here
  obtain ⟨x, y, before, first, rest⟩ := run_at upto short
  have reached : Reachable step s y := reachable_step ⟨_, before⟩ first
  exact ⟨v, w, upto, one, after,
    stable_run keeps reached rest (fires x y ⟨_, before⟩ first)⟩

theorem holds_at_later {p : σ → Prop} (keeps : Stable step s p) (run : Run step s as u)
    {i j : Nat} (here : as[i]? = some a) (there : as[j]? = some b) (order : i < j)
    (fires : ∀ v w, Reachable step s v → step v a w → p w) :
    ∃ v w, Run step s (as.take j) v ∧ step v b w ∧ p v := by
  obtain ⟨v, w, upto, one, _, held⟩ := holds_between keeps run here there order fires
  exact ⟨v, w, upto, one, held⟩

theorem holds_after {p : σ → Prop} (keeps : Stable step s p) (run : Run step s as u) (mem : a ∈ as)
    (fires : ∀ v w, Reachable step s v → step v a w → p w) : p u := by
  obtain ⟨i, here⟩ := List.mem_iff_getElem?.mp mem
  obtain ⟨v, w, before, one, rest⟩ := run_at run here
  exact stable_run keeps (reachable_step ⟨_, before⟩ one) rest (fires v w ⟨_, before⟩ one)

theorem happens_before {p : σ → Prop} (keeps : Stable step s p) (run : Run step s as u) {i j : Nat}
    (here : as[i]? = some a) (there : as[j]? = some b) (apart : a ≠ b)
    (first : ∀ v w, step v a w → ¬ p v) (second : ∀ v w, Reachable step s v → step v b w → p w) :
    i < j := by
  rcases Nat.lt_trichotomy i j with earlier | same | later
  · exact earlier
  · subst same
    rw [here] at there
    cases there
    exact absurd rfl apart
  · obtain ⟨v, w, _, one, held⟩ := holds_at_later keeps run there here later second
    exact absurd held (first v w one)

theorem at_most_once (event : α → Prop) {spent : σ → Prop} (keeps : Stable step s spent)
    (fresh : ∀ v a w, Reachable step s v → step v a w → event a → ¬ spent v)
    (spends : ∀ v a w, Reachable step s v → step v a w → event a → spent w)
    (run : Run step s as u) {i j : Nat} (here : as[i]? = some a) (ea : event a)
    (there : as[j]? = some b) (eb : event b) : i = j := by
  have ordered : ∀ {i j : Nat} {a b : α}, as[i]? = some a → event a → as[j]? = some b →
      event b → ¬ i < j := by
    intro i j a b here ea there eb order
    obtain ⟨v, w, upto, one, gone⟩ := holds_at_later keeps run here there order
      (fun v w reach first => spends v a w reach first ea)
    exact fresh v b w ⟨_, upto⟩ one eb gone
  have left := ordered here ea there eb
  have right := ordered there eb here ea
  omega

theorem one_label (event : α → Prop) {spent : σ → Prop} (keeps : Stable step s spent)
    (fresh : ∀ v a w, Reachable step s v → step v a w → event a → ¬ spent v)
    (spends : ∀ v a w, Reachable step s v → step v a w → event a → spent w)
    (run : Run step s as u) (first : a ∈ as) (ea : event a) (second : b ∈ as) (eb : event b) :
    a = b := by
  obtain ⟨i, here⟩ := List.mem_iff_getElem?.mp first
  obtain ⟨j, there⟩ := List.mem_iff_getElem?.mp second
  obtain rfl := at_most_once event keeps fresh spends run here ea there eb
  rw [here] at there
  cases there
  rfl

theorem event_of_gained (event : α → Prop) {p : σ → Prop} (start : ¬ p s)
    (gains : ∀ v a w, step v a w → p w → p v ∨ event a) (run : Run step s as t) (now : p t) :
    ∃ a ∈ as, event a := by
  induction run with
  | nil => exact absurd now start
  | @snoc as v w a before last ih =>
    rcases gains v a w last now with old | here
    · obtain ⟨b, mem, found⟩ := ih old
      exact ⟨b, List.mem_append_left _ mem, found⟩
    · exact ⟨a, by simp, here⟩

theorem gained_at {p : σ → Prop} (start : ¬ p s) (run : Run step s as t) (now : p t) :
    ∃ i a v w, as[i]? = some a ∧ Run step s (as.take i) v ∧ step v a w ∧
      Run step w (as.drop (i + 1)) t ∧ ¬ p v ∧ p w := by
  induction run with
  | nil => exact absurd now start
  | @snoc as v w a before last ih =>
    by_cases held : p v
    · obtain ⟨i, b, x, y, here, upto, one, rest, lacks, gains⟩ := ih held
      have inside := (List.getElem?_eq_some_iff.mp here).1
      refine ⟨i, b, x, y, ?_, ?_, one, ?_, lacks, gains⟩
      · rwa [List.getElem?_append_left inside]
      · rwa [List.take_append_of_le_length (Nat.le_of_lt inside)]
      · rw [List.drop_append_of_le_length inside]
        exact rest.snoc last
    · refine ⟨as.length, a, v, w, by simp, by simpa using before, last, ?_, held, now⟩
      rw [List.drop_eq_nil_of_le (by simp)]
      exact Run.nil

theorem label_of_gained {p : σ → Prop} (start : ¬ p s)
    (gains : ∀ v a w, step v a w → p w → p v ∨ a = b) (run : Run step s as t) (now : p t) :
    b ∈ as := by
  obtain ⟨a, mem, same⟩ := event_of_gained (fun a => a = b) start gains run now
  rwa [← same]

theorem guarded_run {g : σ → α → Prop} (run : Run (Guarded step g) s as t) :
    Run step s as t := by
  induction run with
  | nil => exact Run.nil
  | snoc _ last ih => exact ih.snoc last.1

theorem through_run {p : σ → Prop} (run : Run (Through step p) s as t) : Run step s as t := by
  induction run with
  | nil => exact Run.nil
  | snoc _ last ih => exact ih.snoc last.1

/-- Where a condition on each step tells whether a property is kept, it tells in which runs all
    states have the property. -/
theorem through_iff_guarded {p : σ → Prop} {g : σ → α → Prop} (start : p s)
    (tells : ∀ v a w, Reachable step s v → p v → step v a w → (p w ↔ g v a)) :
    Run (Through step p) s as t ↔ Run (Guarded step g) s as t := by
  have kept : ∀ {as : List α} {t : σ}, Run (Through step p) s as t → p t := by
    intro as t run
    cases run with
    | nil => exact start
    | snoc _ last => exact last.2
  constructor
  · intro run
    induction run with
    | nil => exact Run.nil
    | snoc before last ih =>
      exact ih.snoc ⟨last.1, (tells _ _ _ ⟨_, through_run before⟩ (kept before) last.1).mp last.2⟩
  · intro run
    induction run with
    | nil => exact Run.nil
    | snoc before last ih =>
      exact ih.snoc ⟨last.1, (tells _ _ _ ⟨_, through_run ih⟩ (kept ih) last.1).mpr last.2⟩

theorem run_guarded {g : σ → α → Prop} (run : Run step s as t) (free : ∀ a ∈ as, ∀ v, g v a) :
    Run (Guarded step g) s as t := by
  induction run with
  | nil => exact Run.nil
  | snoc before last ih =>
    exact (ih fun a mem => free a (List.mem_append_left _ mem)).snoc ⟨last, free _ (by simp) _⟩

theorem guarded_congr {g g' : σ → α → Prop}
    (same : ∀ v a w, Reachable step s v → step v a w → (g v a ↔ g' v a)) :
    Run (Guarded step g) s as t ↔ Run (Guarded step g') s as t := by
  constructor
  · intro run
    induction run with
    | nil => exact Run.nil
    | snoc before last ih =>
      exact ih.snoc ⟨last.1, (same _ _ _ ⟨_, guarded_run before⟩ last.1).mp last.2⟩
  · intro run
    induction run with
    | nil => exact Run.nil
    | snoc before last ih =>
      exact ih.snoc ⟨last.1, (same _ _ _ ⟨_, guarded_run before⟩ last.1).mpr last.2⟩

theorem run_map {step' : τ → β → τ → Prop} (f : σ → τ) (g : α → List β)
    (simulates : ∀ v a w, Reachable step s v → step v a w → Run step' (f v) (g a) (f w))
    (run : Run step s as t) : Run step' (f s) (as.flatMap g) (f t) := by
  induction run with
  | nil => exact Run.nil
  | @snoc as v w a before last ih =>
    rw [List.flatMap_append, List.flatMap_singleton]
    exact run_append ih (simulates v a w ⟨_, before⟩ last)

/-- Where every step of one relation is a step between images, and every step from an image is
    one, the two relations have the same traces. -/
theorem run_image_iff {step' : τ → α → τ → Prop} (f : σ → τ)
    (forth : ∀ v a w, Reachable step s v → step v a w → step' (f v) a (f w))
    (back : ∀ v a y, Reachable step s v → step' (f v) a y → ∃ w, step v a w ∧ y = f w) {y : τ} :
    Run step' (f s) as y ↔ ∃ t, Run step s as t ∧ y = f t := by
  constructor
  · intro run
    induction run with
    | nil => exact ⟨s, Run.nil, rfl⟩
    | snoc _ last ih =>
      obtain ⟨v, before, rfl⟩ := ih
      obtain ⟨w, one, same⟩ := back v _ _ ⟨_, before⟩ last
      exact ⟨w, before.snoc one, same⟩
  · rintro ⟨t, run, rfl⟩
    induction run with
    | nil => exact Run.nil
    | snoc before last ih => exact ih.snoc (forth _ _ _ ⟨_, before⟩ last)

theorem part_once {g : α → List β} {c d : β}
    (once : ∀ {m n : Nat}, (as.flatMap g)[m]? = some c → (as.flatMap g)[n]? = some d → m = n)
    {i j : Nat} (here : as[i]? = some a) (first : g a = [c]) (there : as[j]? = some b)
    (second : g b = [d]) : i = j := by
  have place : ∀ {i : Nat} {a : α} {c : β}, as[i]? = some a → g a = [c] →
      (as.flatMap g)[((as.take i).flatMap g).length]? = some c ∧ ∀ j, i < j →
        ((as.take i).flatMap g).length < ((as.take j).flatMap g).length := by
    intro i a c here alone
    obtain ⟨inside, value⟩ := List.getElem?_eq_some_iff.mp here
    constructor
    · have image := congrArg (List.flatMap g) (parts_at here)
      rw [List.flatMap_append, List.flatMap_append, List.flatMap_singleton, alone] at image
      rw [← image]
      simp
    · intro j order
      obtain ⟨rest, longer⟩ := List.take_prefix_take_left (l := as) order
      rw [← longer, List.flatMap_append, List.take_succ_eq_append_getElem inside,
        List.flatMap_append, value, List.flatMap_singleton, alone]
      simp only [List.length_append, List.length_singleton]
      omega
  have same := once (place here first).1 (place there second).1
  rcases Nat.lt_trichotomy i j with earlier | equal | later
  · have := (place here first).2 j earlier
    omega
  · exact equal
  · have := (place there second).2 i later
    omega

theorem nodup_of_once {g : α → Option β}
    (once : ∀ {i j : Nat} {a b : α} {x : β}, as[i]? = some a → g a = some x → as[j]? = some b →
      g b = some x → i = j) : (as.filterMap g).Nodup := by
  rw [List.Nodup, List.pairwise_filterMap, List.pairwise_iff_getElem]
  intro i j inside inside' order x first y second same
  subst same
  have equal := once (List.getElem?_eq_getElem inside) first (List.getElem?_eq_getElem inside')
    second
  omega

theorem parts_length {g : α → List β} (small : ∀ a, (g a).length ≤ 1) (as : List α) :
    (as.flatMap g).length ≤ as.length := by
  induction as with
  | nil => exact Nat.le_refl _
  | cons a as ih =>
    have first := small a
    rw [List.flatMap_cons, List.length_append, List.length_cons]
    omega

theorem moved_back {κ ρ : Type} [DecidableEq κ] {f : κ → ρ} {P : ρ → Prop} {c d : κ} {p q : ρ}
    (here : f d = q) (same : P p → P q) (now : P (Function.update f d p c)) : P (f c) := by
  by_cases eq : c = d
  · subst eq
    rw [Function.update_self] at now
    rw [here]
    exact same now
  · rwa [Function.update_of_ne eq] at now

theorem moved_at {κ ρ : Type} [DecidableEq κ] {f : κ → ρ} {P : ρ → Prop} {c d : κ} {p q : ρ}
    (here : f d = q) (same : c = d → P q → P p) (now : P (f c)) : P (Function.update f d p c) := by
  by_cases eq : c = d
  · subst eq
    rw [here] at now
    rw [Function.update_self]
    exact same rfl now
  · rwa [Function.update_of_ne eq]

theorem moved_on {κ ρ : Type} [DecidableEq κ] {f : κ → ρ} {P : ρ → Prop} {c d : κ} {p q : ρ}
    (here : f d = q) (same : P q → P p) (now : P (f c)) : P (Function.update f d p c) :=
  moved_at here (fun _ => same) now

theorem moved_from {κ ρ β : Type} [DecidableEq κ] {f : κ → ρ} {g : ρ → Option β} {c d : κ}
    {p q : ρ} {x : β} (here : f d = q) (same : g p = some x → g q = some x)
    (now : g (Function.update f d p c) = some x) : g (f c) = some x :=
  moved_back (P := fun p => g p = some x) here same now

/-- A fact about one task that an update establishes was there before, or is about the
    updated task. -/
theorem moved_made {κ ρ : Type} [DecidableEq κ] {f : κ → ρ} {P : ρ → Prop} {Q : Prop} {c d : κ}
    {p : ρ} (made : c = d → P p → Q) (now : P (Function.update f d p c)) : P (f c) ∨ Q := by
  by_cases eq : c = d
  · subst eq
    rw [Function.update_self] at now
    exact Or.inr (made rfl now)
  · rw [Function.update_of_ne eq] at now
    exact Or.inl now

theorem moved_to {κ ρ β : Type} [DecidableEq κ] {f : κ → ρ} {g : ρ → Option β} {c d : κ}
    {p : ρ} {x : β} (now : g (Function.update f d p c) = some x) :
    g (f c) = some x ∨ c = d ∧ g p = some x :=
  moved_made (P := fun p => g p = some x) And.intro now

theorem moved_or {κ ρ : Type} [DecidableEq κ] {f : κ → ρ} {c d : κ} {p q : ρ} (here : f d = q) :
    Function.update f d p c = f c ∨ c = d ∧ f c = q := by
  by_cases eq : c = d
  · subst eq
    exact Or.inr ⟨rfl, here⟩
  · exact Or.inl (Function.update_of_ne eq _ _)

end LabelledRuns

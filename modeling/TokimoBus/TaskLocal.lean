import TokimoBus.LabelledRuns

/-!
A value that is local to a task, on threads that poll many tasks in turn. A scope installs its
value for exactly the polls of the future it wraps, so a thread holds the values of the scopes
it is in, the innermost first, and none between two polls. While a task is not polled, its scope
keeps the value.
-/
namespace TaskLocal
open LabelledRuns
variable {ω τ ν : Type} [DecidableEq ω] [DecidableEq τ]

/-- Which task each thread polls, what is installed there, what the scopes of the parked tasks
    keep, and which tasks have overwritten their value. -/
structure Locals (ω τ ν : Type) where
  polled : ω → Option τ
  installed : ω → List ν
  saved : τ → Option ν
  changed : τ → Bool

def Locals.idle (ω τ ν : Type) : Locals ω τ ν where
  polled := fun _ => none
  installed := fun _ => []
  saved := fun _ => none
  changed := fun _ => false

def Locals.current (l : Locals ω τ ν) (w : ω) : Option ν := (l.installed w).head?

def Locals.poll (l : Locals ω τ ν) (w : ω) (t : Option τ) (values : List ν) : Locals ω τ ν where
  polled := Function.update l.polled w t
  installed := Function.update l.installed w values
  saved := l.saved
  changed := l.changed

def Locals.install (l : Locals ω τ ν) (w : ω) (values : List ν) : Locals ω τ ν :=
  { l with installed := Function.update l.installed w values }

def Locals.keep (l : Locals ω τ ν) (t : τ) (v : Option ν) : Locals ω τ ν :=
  { l with saved := Function.update l.saved t v }

def Locals.change (l : Locals ω τ ν) (t : τ) : Locals ω τ ν :=
  { l with changed := Function.update l.changed t true }

inductive LocalAct (ω τ ν : Type) where
  | start (w : ω) (t : τ)
  | scope (w : ω) (t : τ) (v : ν)
  | set (w : ω) (t : τ) (v : ν)
  | enter (w : ω) (t : τ) (v : ν)
  | leave (w : ω) (t : τ)
  | park (w : ω) (t : τ)
  | resume (w : ω) (t : τ)
  | finish (w : ω) (t : τ)
  deriving DecidableEq

/-- A task starts outside any scope, enters the scope that wraps it, and can enter others inside
    of it; a poll ends with all inner scopes left. -/
inductive LocalStep : Locals ω τ ν → LocalAct ω τ ν → Locals ω τ ν → Prop where
  | start {l : Locals ω τ ν} {w : ω} {t : τ} (free : l.polled w = none) :
      LocalStep l (.start w t) (l.poll w (some t) [])
  | scope {l : Locals ω τ ν} {w : ω} {t : τ} {v : ν} (here : l.polled w = some t)
      (bare : l.installed w = []) : LocalStep l (.scope w t v) (l.install w [v])
  | set {l : Locals ω τ ν} {w : ω} {t : τ} {v : ν} (here : l.polled w = some t) :
      LocalStep l (.set w t v)
        ((l.install w ((l.installed w).modifyHead fun _ => v)).change t)
  | enter {l : Locals ω τ ν} {w : ω} {t : τ} {v : ν} (here : l.polled w = some t)
      (inside : l.installed w ≠ []) :
      LocalStep l (.enter w t v) (l.install w (v :: l.installed w))
  | leave {l : Locals ω τ ν} {w : ω} {t : τ} {v u : ν} {rest : List ν}
      (here : l.polled w = some t) (nested : l.installed w = v :: u :: rest) :
      LocalStep l (.leave w t) (l.install w (u :: rest))
  | park {l : Locals ω τ ν} {w : ω} {t : τ} {v : ν} (here : l.polled w = some t)
      (base : l.installed w = [v]) :
      LocalStep l (.park w t) ((l.poll w none []).keep t (some v))
  | resume {l : Locals ω τ ν} {w : ω} {t : τ} {v : ν} (free : l.polled w = none)
      (kept : l.saved t = some v) :
      LocalStep l (.resume w t) ((l.poll w (some t) [v]).keep t none)
  | finish {l : Locals ω τ ν} {w : ω} {t : τ} {v : ν} (here : l.polled w = some t)
      (base : l.installed w = [v]) : LocalStep l (.finish w t) (l.poll w none [])

abbrev LocalRun (acts : List (LocalAct ω τ ν)) (l : Locals ω τ ν) : Prop :=
  Run LocalStep (Locals.idle ω τ ν) acts l

def Scoped (acts : List (LocalAct ω τ ν)) (t : τ) (v : ν) : Prop :=
  ∃ w, LocalAct.scope w t v ∈ acts

structure Own (acts : List (LocalAct ω τ ν)) (l : Locals ω τ ν) : Prop where
  polled : ∀ w t v, l.polled w = some t → l.changed t = false →
    (l.installed w).getLast? = some v → Scoped acts t v
  saved : ∀ t v, l.changed t = false → l.saved t = some v → Scoped acts t v

variable {acts : List (LocalAct ω τ ν)} {a : LocalAct ω τ ν} {l l' : Locals ω τ ν} {w : ω} {t : τ}
  {v : ν}

omit [DecidableEq ω] [DecidableEq τ] in
theorem scoped_later (a : LocalAct ω τ ν) (old : Scoped acts t v) : Scoped (acts ++ [a]) t v := by
  obtain ⟨w, mem⟩ := old
  exact ⟨w, List.mem_append_left _ mem⟩

omit [DecidableEq τ] in
theorem own_poll (own : Own acts l) {p : Option τ} {values : List ν}
    (fits : ∀ t v, p = some t → l.changed t = false → values.getLast? = some v →
      Scoped (acts ++ [a]) t v) : Own (acts ++ [a]) (l.poll w p values) where
  polled := by
    intro x t v here same last
    by_cases eq : x = w
    · subst eq
      simp only [Locals.poll, Function.update_self] at here last
      exact fits t v here same last
    · simp only [Locals.poll, Function.update_of_ne eq] at here last
      exact scoped_later a (own.polled x t v here same last)
  saved := fun t v same kept => scoped_later a (own.saved t v same kept)

omit [DecidableEq τ] in
theorem install_poll (here : l.polled w = some t) (values : List ν) :
    l.install w values = l.poll w (some t) values := by
  have same : Function.update l.polled w (some t) = l.polled := by
    rw [← here]
    exact Function.update_eq_self w l.polled
  simp [Locals.install, Locals.poll, same]

omit [DecidableEq ω] in
theorem own_keep {k : Option ν} (own : Own acts l)
    (fits : ∀ v, k = some v → l.changed t = false → Scoped acts t v) : Own acts (l.keep t k) where
  polled := own.polled
  saved := by
    intro u v same kept
    by_cases eq : u = t
    · subst eq
      simp only [Locals.keep, Function.update_self] at kept
      exact fits v kept same
    · simp only [Locals.keep, Function.update_of_ne eq] at kept
      exact own.saved u v same kept

theorem own_step (own : Own acts l) (step : LocalStep l a l') : Own (acts ++ [a]) l' := by
  cases step with
  | start free =>
    apply own_poll own
    intro u v _ _ last
    cases last
  | @scope w t v here bare =>
    rw [install_poll here]
    apply own_poll own
    intro u x same _ last
    cases same
    cases last
    exact ⟨w, by simp⟩
  | @set w t v here =>
    constructor
    · intro x u y polled same last
      have other : u ≠ t := by
        rintro rfl
        simp [Locals.change] at same
      have elsewhere : x ≠ w := by
        rintro rfl
        exact other (Option.some.inj (polled.symm.trans here))
      simp only [Locals.change, Locals.install, Function.update_of_ne other,
        Function.update_of_ne elsewhere] at polled same last
      exact scoped_later _ (own.polled x u y polled same last)
    · intro u y same kept
      have other : u ≠ t := by
        rintro rfl
        simp [Locals.change] at same
      simp only [Locals.change, Locals.install, Function.update_of_ne other] at same kept
      exact scoped_later _ (own.saved u y same kept)
  | @enter w t v here inside =>
    rw [install_poll here]
    apply own_poll own
    intro u y same fresh last
    cases same
    rw [List.getLast?_cons_of_ne_nil inside] at last
    exact scoped_later _ (own.polled w t y here fresh last)
  | @leave w t v u rest here nested =>
    rw [install_poll here]
    apply own_poll own
    intro u' y same fresh last
    cases same
    refine scoped_later _ (own.polled w t y here fresh ?_)
    rw [nested, List.getLast?_cons_cons]
    exact last
  | @park w t v here base =>
    apply own_keep
    · apply own_poll own
      intro u y same
      cases same
    · intro y same fresh
      cases same
      exact scoped_later _ (own.polled w t v here fresh (by rw [base]; rfl))
  | @resume w t v free kept =>
    apply own_keep
    · apply own_poll own
      intro u y same fresh last
      cases same
      cases last
      exact scoped_later _ (own.saved t v fresh kept)
    · intro y same
      cases same
  | finish here base =>
    apply own_poll own
    intro u y same
    cases same

theorem run_own (run : LocalRun acts l) : Own acts l := by
  refine run_history (p := Own) ?_ ?_ run
  · constructor
    · intro w t v polled
      cases polled
    · intro t v _ kept
      cases kept
  · intro acts l a l' _ step own
    exact own_step own step

/-- In no inner scope, a task that has not overwritten its value reads what its scope was made
    with. -/
theorem current_scoped (run : LocalRun acts l) (here : l.polled w = some t)
    (fresh : l.changed t = false) (base : l.installed w = [v]) : Scoped acts t v :=
  (run_own run).polled w t v here fresh (by rw [base]; rfl)

end TaskLocal

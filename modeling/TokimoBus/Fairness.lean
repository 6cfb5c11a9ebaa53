import TokimoBus.LabelledRuns

/-!
Executions that never end, in which a step may also not happen, and weak fairness for a class of
steps: one of them is taken at some point, unless there comes a point at which none can be taken. A
class of steps that is enabled until something is achieved, and each of whose steps makes progress
that no other step undoes, achieves it.
-/
namespace Fairness
open LabelledRuns
variable {σ α φ : Type} {step : σ → α → σ → Prop} {start s t : σ} {a : α} {as bs : List α}
  {own : α → Prop} {m n : Nat}

def Moves (step : σ → α → σ → Prop) (s : σ) : Option α → σ → Prop
  | some a, t => step s a t
  | none, t => t = s

structure Execution (step : σ → α → σ → Prop) (start : σ) where
  state : Nat → σ
  label : Nat → Option α
  starts : state 0 = start
  moves : ∀ n, Moves step (state n) (label n) (state (n + 1))

def Enabled (step : σ → α → σ → Prop) (own : α → Prop) (s : σ) : Prop :=
  ∃ a t, own a ∧ step s a t

def Execution.Fair (e : Execution step start) (own : α → Prop) : Prop :=
  ∀ n, (∀ m, n ≤ m → Enabled step own (e.state m)) → ∃ m a, n ≤ m ∧ e.label m = some a ∧ own a

/-- Steps of this class that are possible again and again are taken at some point. -/
def Execution.StronglyFair (e : Execution step start) (own : α → Prop) : Prop :=
  ∀ n, (∀ m, n ≤ m → ∃ l, m ≤ l ∧ Enabled step own (e.state l)) →
    ∃ m a, n ≤ m ∧ e.label m = some a ∧ own a

def Execution.acts (e : Execution step start) (n : Nat) : List α := (List.range n).filterMap e.label

theorem Execution.acts_succ (e : Execution step start) (n : Nat) :
    e.acts (n + 1) = e.acts n ++ (e.label n).toList := by
  unfold Execution.acts
  rw [List.range_succ, List.filterMap_append, List.filterMap_cons]
  cases e.label n <;> rfl

theorem Execution.run (e : Execution step start) (n : Nat) : Run step start (e.acts n) (e.state n) := by
  induction n with
  | zero =>
    rw [e.starts]
    exact Run.nil
  | succ n ih =>
    have moves := e.moves n
    rw [e.acts_succ]
    cases label : e.label n with
    | none =>
      rw [label] at moves
      rw [Option.toList_none, List.append_nil, moves]
      exact ih
    | some a =>
      rw [label] at moves
      exact ih.snoc moves

theorem Execution.reachable (e : Execution step start) (n : Nat) :
    Reachable step start (e.state n) :=
  ⟨_, e.run n⟩

theorem Execution.acts_grow (e : Execution step start) (order : m ≤ n) : e.acts m <+: e.acts n := by
  induction order with
  | refl => exact List.prefix_refl _
  | step _ ih =>
    rw [e.acts_succ]
    exact ih.trans (List.prefix_append _ _)

theorem Execution.happened (e : Execution step start) (label : e.label m = some a) :
    a ∈ e.acts (m + 1) := by
  rw [e.acts_succ, label]
  simp

theorem Execution.stays {p : σ → Prop} (e : Execution step start) (keeps : Stable step start p)
    (order : m ≤ n) (now : p (e.state m)) : p (e.state n) := by
  induction order with
  | refl => exact now
  | @step n _ ih =>
    have moves := e.moves n
    cases label : e.label n with
    | none =>
      rw [label] at moves
      rwa [moves]
    | some a =>
      rw [label] at moves
      exact keeps _ _ _ (e.reachable n) moves ih

theorem Execution.moved (e : Execution step start) (differs : e.state (n + 1) ≠ e.state n) :
    ∃ a, e.label n = some a ∧ step (e.state n) a (e.state (n + 1)) := by
  have moves := e.moves n
  cases label : e.label n with
  | none =>
    rw [label] at moves
    exact absurd moves differs
  | some a =>
    rw [label] at moves
    exact ⟨a, rfl, moves⟩

theorem Execution.lasts {p : σ → Prop} (e : Execution step start) (now : p (e.state n))
    (never : ∀ m, n ≤ m → p (e.state m) → p (e.state (m + 1))) : ∀ m, n ≤ m → p (e.state m) := by
  intro m later
  induction later with
  | refl => exact now
  | step later ih => exact never _ later ih

/-- A class of steps that works towards a goal: it is enabled until the goal is reached, and each of
    its steps goes up by a measure that no step takes down. -/
structure Works (step : σ → α → σ → Prop) (start : σ) (own : α → Prop) (inv goal : σ → Prop)
    (measure : σ → Nat) (bound : Nat) : Prop where
  keeps : Stable step start inv
  grows : ∀ {s a t}, step s a t → measure s ≤ measure t
  climbs : ∀ {s a t}, own a → step s a t → measure s < measure t
  bounded : ∀ s, measure s ≤ bound
  goes : ∀ {s}, Reachable step start s → inv s → goal s ∨ Enabled step own s

variable {inv goal : σ → Prop} {measure : σ → Nat} {bound : Nat}

theorem Works.few_steps [DecidablePred own] (works : Works step start own inv goal measure bound)
    (run : Run step s as t) : measure s + as.countP (fun a => own a) ≤ measure t := by
  induction run with
  | nil => simp
  | @snoc as t u a _ last ih =>
    rw [List.countP_append, List.countP_singleton]
    by_cases mine : own a
    · have up := works.climbs mine last
      simp only [mine, decide_true, ↓reduceIte]
      omega
    · have up := works.grows last
      simp only [mine, decide_false, Bool.false_eq_true, ↓reduceIte]
      omega

/-- A class that is not put off for ever reaches its goal. -/
theorem Works.reaches (works : Works step start own inv goal measure bound)
    (e : Execution step start) (fair : e.Fair own) {n : Nat} (now : inv (e.state n)) :
    ∃ m, n ≤ m ∧ goal (e.state m) := by
  have up : ∀ {m n : Nat}, m ≤ n → measure (e.state m) ≤ measure (e.state n) := fun {m} _ order =>
    e.stays (p := fun s => measure (e.state m) ≤ measure s)
      (fun _ _ _ _ step now => Nat.le_trans now (works.grows step)) order (Nat.le_refl _)
  generalize left : bound - measure (e.state n) = d
  induction d using Nat.strongRecOn generalizing n with
  | ind d ih =>
    by_contra never
    push Not at never
    have enabled : ∀ m, n ≤ m → Enabled step own (e.state m) := by
      intro m later
      rcases works.goes (e.reachable m) (e.stays works.keeps later now) with reached | enabled
      · exact absurd reached (never m later)
      · exact enabled
    obtain ⟨m, a, later, label, mine⟩ := fair n enabled
    have moves := e.moves m
    rw [label] at moves
    have climbed := works.climbs mine moves
    have before := up later
    have top := works.bounded (e.state (m + 1))
    obtain ⟨l, after, reached⟩ := ih (bound - measure (e.state (m + 1))) (by omega)
      (e.stays works.keeps (Nat.le_succ_of_le later) now) rfl
    exact never l (by omega) reached

/-- A queue whose head one class of steps takes, after so much work at most. -/
structure Serves (step : σ → α → σ → Prop) (start : σ) (own : α → Prop) (inv out : σ → Prop)
    (queue : σ → List φ) (pops : α → Option φ) (lag : σ → Nat) : Prop where
  keeps : Stable step start inv
  stays : Stable step start out
  ready : ∀ {s}, Reachable step start s → inv s → ¬ out s → queue s ≠ [] → Enabled step own s
  works : ∀ {s a t}, Reachable step start s → inv s → step s a t → pops a = none →
    out t ∨ (∃ more, queue t = queue s ++ more) ∧ lag t ≤ lag s ∧ (own a → lag t < lag s)
  takes : ∀ {s a t f}, Reachable step start s → inv s → step s a t → pops a = some f →
    out t ∨ ∃ rest more, queue s = f :: rest ∧ queue t = rest ++ more

variable {out : σ → Prop} {queue : σ → List φ} {pops : α → Option φ} {lag : σ → Nat} {f : φ}
  {before after : List φ}

theorem Serves.moved (serves : Serves step start own inv out queue pops lag)
    (reach : Reachable step start s) (inside : inv s) (one : step s a t)
    (here : queue s = f :: after) : out t ∨ pops a = some f ∨
      (∃ more, queue t = f :: (after ++ more)) ∧ lag t ≤ lag s ∧ (own a → lag t < lag s) := by
  cases popped : pops a with
  | none =>
    rcases serves.works reach inside one popped with gone | ⟨⟨more, grown⟩, low, sinks⟩
    · exact Or.inl gone
    · exact Or.inr (Or.inr ⟨⟨more, by rw [grown, here, List.cons_append]⟩, low, sinks⟩)
  | some g =>
    rcases serves.takes reach inside one popped with gone | ⟨rest, more, split, _⟩
    · exact Or.inl gone
    · rw [here] at split
      cases split
      exact Or.inr (Or.inl rfl)

theorem Serves.head (serves : Serves step start own inv out queue pops lag)
    (e : Execution step start) (fair : e.Fair own) {n : Nat} (now : inv (e.state n))
    (here : queue (e.state n) = f :: after) : ∃ m, n ≤ m ∧ (out (e.state m) ∨
      ∃ a more, e.label m = some a ∧ pops a = some f ∧
        queue (e.state m) = f :: (after ++ more)) := by
  generalize left : lag (e.state n) = d
  induction d using Nat.strongRecOn generalizing n after with
  | ind d ih =>
    by_contra never
    have stay : ∀ m, n ≤ m → ¬ out (e.state m) := fun m later gone =>
      never ⟨m, later, Or.inl gone⟩
    have kept : ∀ m a more, n ≤ m → e.label m = some a → inv (e.state m) →
        queue (e.state m) = f :: (after ++ more) →
        (∃ more, queue (e.state (m + 1)) = f :: (after ++ more)) ∧
          lag (e.state (m + 1)) ≤ lag (e.state m) ∧
          (own a → lag (e.state (m + 1)) < lag (e.state m)) := by
      intro m a more later label inside same
      have moves := e.moves m
      rw [label] at moves
      rcases serves.moved (e.reachable m) inside moves same with gone | taken | ⟨⟨more', grown⟩, low⟩
      · exact absurd gone (stay _ (Nat.le_succ_of_le later))
      · exact absurd ⟨m, later, Or.inr ⟨a, more, label, taken, same⟩⟩ never
      · exact ⟨⟨more ++ more', by rw [grown, List.append_assoc]⟩, low⟩
    have wait : ∀ m, n ≤ m → (∃ more, queue (e.state m) = f :: (after ++ more)) ∧
        lag (e.state m) ≤ lag (e.state n) := by
      intro m later
      induction later with
      | refl => exact ⟨⟨[], by rw [here, List.append_nil]⟩, Nat.le_refl _⟩
      | @step m later known =>
        obtain ⟨⟨more, same⟩, low⟩ := known
        cases label : e.label m with
        | none =>
          have moves := e.moves m
          rw [label] at moves
          rw [show e.state (m + 1) = e.state m from moves]
          exact ⟨⟨more, same⟩, low⟩
        | some a =>
          obtain ⟨there, sink, _⟩ := kept m a more later label (e.stays serves.keeps later now) same
          exact ⟨there, Nat.le_trans sink low⟩
    have enabled : ∀ m, n ≤ m → Enabled step own (e.state m) := by
      intro m later
      obtain ⟨⟨more, same⟩, _⟩ := wait m later
      exact serves.ready (e.reachable m) (e.stays serves.keeps later now) (stay m later) (by simp [same])
    obtain ⟨m, a, later, label, mine⟩ := fair n enabled
    obtain ⟨⟨more, same⟩, low⟩ := wait m later
    obtain ⟨⟨more', same'⟩, _, sinks⟩ :=
      kept m a more later label (e.stays serves.keeps later now) same
    have less := sinks mine
    obtain ⟨l, after', reached⟩ := ih (lag (e.state (m + 1))) (by omega)
      (e.stays serves.keeps (Nat.le_succ_of_le later) now) same' rfl
    refine never ⟨l, by omega, reached.imp_right fun taken => ?_⟩
    obtain ⟨b, rest, label', popped', split⟩ := taken
    exact ⟨b, more' ++ rest, label', popped', by rw [split, List.append_assoc]⟩

/-- Whatever is in the queue is taken at some point, or the queue is given up. -/
theorem Serves.served (serves : Serves step start own inv out queue pops lag)
    (e : Execution step start) (fair : e.Fair own) {n : Nat} (now : inv (e.state n))
    (here : f ∈ queue (e.state n)) : ∃ m, n ≤ m ∧ (out (e.state m) ∨
      ∃ a, e.label m = some a ∧ pops a = some f) := by
  obtain ⟨ahead, after, split⟩ := List.append_of_mem here
  clear here
  induction ahead generalizing n after with
  | nil =>
    obtain ⟨m, later, gone | ⟨a, _, label, popped, _⟩⟩ := serves.head e fair now split
    · exact ⟨m, later, Or.inl gone⟩
    · exact ⟨m, later, Or.inr ⟨a, label, popped⟩⟩
  | cons g ahead ih =>
    rw [List.cons_append] at split
    obtain ⟨m, later, gone | ⟨a, more, label, popped, same⟩⟩ := serves.head e fair now split
    · exact ⟨m, later, Or.inl gone⟩
    · have moves := e.moves m
      rw [label] at moves
      have inside := e.stays serves.keeps later now
      rcases serves.takes (e.reachable m) inside moves popped with gone | ⟨rest, more', whole, moved⟩
      · exact ⟨m + 1, Nat.le_succ_of_le later, Or.inl gone⟩
      · rw [same] at whole
        obtain ⟨_, rfl⟩ := List.cons.inj whole
        have split' : queue (e.state (m + 1)) = ahead ++ f :: (after ++ more ++ more') := by
          rw [moved]
          simp only [List.append_assoc, List.cons_append]
        obtain ⟨l, next, reached⟩ := ih (serves.keeps _ _ _ (e.reachable m) moves inside) _ split'
        exact ⟨l, by omega, reached⟩

theorem Execution.extend (e : Execution step start) (rests : ∀ m, n ≤ m → e.state m = s ∧
    e.acts m = as) (last : step s a t) : ∃ e' : Execution step start,
      (∀ m, m ≤ n → e'.state m = e.state m ∧ e'.acts m = e.acts m) ∧
      ∀ m, n + 1 ≤ m → e'.state m = t ∧ e'.acts m = as ++ [a] := by
  let label := fun m => if m < n then e.label m else if m = n then some a else none
  let e' : Execution step start := ⟨fun m => if m ≤ n then e.state m else t, label, ?_, ?_⟩
  · have early : ∀ m, m ≤ n → e'.acts m = e.acts m := by
      intro m order
      induction m with
      | zero => rfl
      | succ m ih =>
        have same : e'.label m = e.label m := if_pos order
        rw [e'.acts_succ, e.acts_succ, ih (Nat.le_of_succ_le order), same]
    refine ⟨e', fun m order => ⟨if_pos order, early m order⟩, fun m later => ?_⟩
    refine ⟨if_neg (Nat.not_le.mpr (Nat.lt_of_succ_le later)), ?_⟩
    induction later with
    | refl =>
      have own : e'.label n = some a := by simp [e', label]
      rw [e'.acts_succ, early n (Nat.le_refl n), (rests n (Nat.le_refl n)).2, own]
      rfl
    | @step m later ih =>
      have past : n < m := later
      have apart : m ≠ n := Nat.ne_of_gt past
      have quiet : e'.label m = none := by
        simp [e', label, apart, Nat.not_lt.mpr (Nat.le_of_lt past)]
      rw [e'.acts_succ, ih, quiet]
      simp
  · simpa using e.starts
  · intro m
    rcases Nat.lt_trichotomy m n with early | same | late
    · simpa [label, early, Nat.le_of_lt early, Nat.succ_le_of_lt early] using e.moves m
    · subst same
      simpa [label, Moves, rests, Nat.not_succ_le_self] using last
    · have apart : m ≠ n := Nat.ne_of_gt late
      simp [label, Moves, apart, Nat.not_lt.mpr (Nat.le_of_lt late), Nat.not_le.mpr late,
        Nat.not_le.mpr (Nat.lt_succ_of_lt late)]

theorem Execution.through (e : Execution step start) (rests : ∀ m, n ≤ m → e.state m = s ∧
    e.acts m = as) (run : Run step s bs t) : ∃ e' : Execution step start,
      (∀ m, m ≤ n → e'.state m = e.state m ∧ e'.acts m = e.acts m) ∧
      ∀ m, n + bs.length ≤ m → e'.state m = t ∧ e'.acts m = as ++ bs := by
  induction run with
  | nil => exact ⟨e, fun _ _ => ⟨rfl, rfl⟩, by simpa using rests⟩
  | @snoc bs t u a _ last ih =>
    obtain ⟨mid, same, after⟩ := ih
    obtain ⟨e', agrees, ends⟩ := mid.extend after last
    refine ⟨e', fun m early => ?_, fun m later => ?_⟩
    · obtain ⟨state, acts⟩ := agrees m (Nat.le_add_right_of_le early)
      rw [state, acts]
      exact same m early
    · rw [← List.append_assoc]
      refine ends m ?_
      rwa [List.length_append, List.length_singleton, ← Nat.add_assoc] at later

def Execution.still (step : σ → α → σ → Prop) (start : σ) : Execution step start where
  state := fun _ => start
  label := fun _ => none
  starts := rfl
  moves := fun _ => rfl

/-- A run, seen where its first part ends, with nothing after it. -/
theorem run_execution (first : Run step start as s) (rest : Run step s bs t) :
    ∃ e : Execution step start, e.state as.length = s ∧ e.acts as.length = as ∧
      ∀ m, as.length + bs.length ≤ m → e.state m = t ∧ e.acts m = as ++ bs := by
  have quiet : ∀ m, 0 ≤ m → (Execution.still step start).state m = start ∧
      (Execution.still step start).acts m = [] := by
    intro m _
    exact ⟨rfl, by simp [Execution.acts, Execution.still]⟩
  obtain ⟨e, _, there⟩ := Execution.through _ quiet first
  simp only [Nat.zero_add, List.nil_append] at there
  obtain ⟨e', same, after⟩ := e.through there rest
  obtain ⟨state, acts⟩ := same as.length (Nat.le_refl _)
  obtain ⟨here, done⟩ := there as.length (Nat.le_refl _)
  exact ⟨e', by rw [state, here], by rw [acts, done], after⟩

theorem rest_fair (e : Execution step start)
    (rests : ∀ m, n ≤ m → e.state m = t ∧ e.acts m = as)
    (idle : ¬ Enabled step own t) : e.Fair own := by
  intro m enabled
  have there := enabled (max m n) (Nat.le_max_left _ _)
  rw [(rests _ (Nat.le_max_right _ _)).1] at there
  exact absurd there idle

theorem rest_strongly_fair (e : Execution step start)
    (rests : ∀ m, n ≤ m → e.state m = t ∧ e.acts m = as)
    (idle : ¬ Enabled step own t) : e.StronglyFair own := by
  intro m enabled
  obtain ⟨l, later, there⟩ := enabled (max m n) (Nat.le_max_left _ _)
  rw [(rests l (by omega)).1] at there
  exact absurd there idle

end Fairness

import TokimoBus.WrappingCounter

/-!
Requests that wait for replies in shared tables. A request takes a number from a table's
counter, lists itself there under that number, and is woken by a reply that bears the
number; the reply is then its result. While a counter has not wrapped round, table and
number name one request, so whatever replies arrive, in whatever order, a request is
woken at most once and only by a reply to its own number on its own table.
-/
namespace RequestTable
open LabelledRuns WrappingCounter
variable {σ α κ ι ρ : Type} {step : σ → α → σ → Prop} {start : σ}

/-- The part of a transition system that handles requests `ι`, tables `κ` and replies `ρ`.
    A request's stage is 0 before it takes its number, 1 until it is listed, 2 until it has
    its result. -/
structure Table (step : σ → α → σ → Prop) (start : σ) (κ ι ρ : Type) where
  counter : κ → σ → UInt64
  slot : σ → κ → UInt64 → Option ι
  ticket : σ → ι → Option (κ × UInt64)
  reply : σ → ι → Option ρ
  stage : σ → ι → Nat
  tag : ρ → UInt64
  takes : κ → α → Option UInt64
  numbers : α → Option (ι × κ × UInt64)
  lists : α → Option (ι × κ × UInt64)
  hits : α → Option (κ × ρ × ι)
  completes : α → Option (ι × ρ)
  counts : ∀ k, Counts step (counter k) (takes k) 0
  takes_numbers : ∀ {a c k r}, numbers a = some (c, k, r) → takes k a = some r
  forward : ∀ {s a t} c, step s a t → stage s c ≤ stage t c
  number : ∀ {s a t c k r}, step s a t → numbers a = some (c, k, r) →
    stage s c = 0 ∧ 1 ≤ stage t c
  ticket_start : ∀ c, ticket start c = none
  ticket_gain : ∀ {s a t c k r}, step s a t → ticket t c = some (k, r) →
    ticket s c = some (k, r) ∨ numbers a = some (c, k, r)
  slot_start : ∀ k r, slot start k r = none
  slot_gain : ∀ {s a t c k r}, step s a t → slot t k r = some c →
    slot s k r = some c ∨ lists a = some (c, k, r)
  list : ∀ {s a t c k r}, step s a t → lists a = some (c, k, r) →
    ticket s c = some (k, r) ∧ stage s c = 1 ∧ 2 ≤ stage t c
  hit : ∀ {s a t k p c}, step s a t → hits a = some (k, p, c) →
    slot s k (tag p) = some c ∧ slot t k (tag p) = none ∧ lists a = none
  reply_start : ∀ c, reply start c = none
  reply_gain : ∀ {s a t c p}, step s a t → reply t c = some p →
    reply s c = some p ∨ ∃ k, hits a = some (k, p, c)
  complete : ∀ {s a t c p}, step s a t → completes a = some (c, p) →
    reply s c = some p ∧ stage s c = 2 ∧ 3 ≤ stage t c

variable (T : Table step start κ ι ρ) {s t : σ} {as : List α} {a b : α} {c c' : ι} {k k' : κ}
  {r r' : UInt64} {p p' : ρ}

def Numbered (as : List α) (c : ι) (k : κ) (r : UInt64) : Prop :=
  ∃ a ∈ as, T.numbers a = some (c, k, r)

theorem stage_stable (c : ι) (n : Nat) : Stable step start fun s => n ≤ T.stage s c :=
  fun _ _ _ _ h now => Nat.le_trans now (T.forward c h)

/-- While the counter has not wrapped, table and number name the request. -/
theorem number_unique (run : Run step start as s) (few : taken (T.takes k) as ≤ 2 ^ 64)
    (first : Numbered T as c k r) (second : Numbered T as c' k r) : c = c' := by
  obtain ⟨a, mem, na⟩ := first
  obtain ⟨b, mem', nb⟩ := second
  obtain ⟨i, here⟩ := List.mem_iff_getElem?.mp mem
  obtain ⟨j, there⟩ := List.mem_iff_getElem?.mp mem'
  have places := taken_once (T.counts k) run few here (T.takes_numbers na) there
    (T.takes_numbers nb)
  subst places
  rw [here] at there
  cases there
  rw [na] at nb
  cases nb
  rfl

theorem number_once (run : Run step start as s) (first : Numbered T as c k r)
    (second : Numbered T as c k' r') : k = k' ∧ r = r' := by
  obtain ⟨a, mem, na⟩ := first
  obtain ⟨b, mem', nb⟩ := second
  obtain ⟨i, here⟩ := List.mem_iff_getElem?.mp mem
  obtain ⟨j, there⟩ := List.mem_iff_getElem?.mp mem'
  have places := at_most_once (fun a => ∃ k r, T.numbers a = some (c, k, r)) (stage_stable T c 1)
    ?_ ?_ run here ⟨k, r, na⟩ there ⟨k', r', nb⟩
  · subst places
    rw [here] at there
    cases there
    rw [na] at nb
    cases nb
    exact ⟨rfl, rfl⟩
  · intro v a w _ one found spent
    obtain ⟨k, r, number⟩ := found
    have := (T.number one number).1
    omega
  · intro v a w _ one found
    obtain ⟨k, r, number⟩ := found
    exact (T.number one number).2

theorem ticket_numbered (run : Run step start as s) (now : T.ticket s c = some (k, r)) :
    Numbered T as c k r := by
  refine event_of_gained (fun a => T.numbers a = some (c, k, r))
    (p := fun s => T.ticket s c = some (k, r)) ?_ (fun v a w h held => T.ticket_gain h held) run now
  simp [T.ticket_start]

theorem slot_numbered (run : Run step start as s) (now : T.slot s k r = some c) :
    Numbered T as c k r := by
  refine event_of_gained (fun a => T.numbers a = some (c, k, r))
    (p := fun s => T.slot s k r = some c ∨ T.ticket s c = some (k, r)) ?_ ?_ run (Or.inl now)
  · simp [T.slot_start, T.ticket_start]
  · intro v a w h found
    rcases found with listed | held
    · rcases T.slot_gain h listed with old | new
      · exact Or.inl (Or.inl old)
      · exact Or.inl (Or.inr (T.list h new).1)
    · rcases T.ticket_gain h held with old | new
      · exact Or.inl (Or.inr old)
      · exact Or.inr new

theorem slot_stage (run : Run step start as s) (now : T.slot s k r = some c) :
    2 ≤ T.stage s c := by
  revert now
  refine run_history (p := fun _ s => T.slot s k r = some c → 2 ≤ T.stage s c) ?_ ?_ run
  · simp [T.slot_start]
  · intro as v a w _ h known now
    rcases T.slot_gain h now with old | new
    · exact Nat.le_trans (known old) (T.forward c h)
    · exact (T.list h new).2.2

theorem listed_once (run : Run step start as s) (first : T.slot s k r = some c)
    (second : T.slot s k' r' = some c) : k = k' ∧ r = r' :=
  number_once T run (slot_numbered T run first) (slot_numbered T run second)

/-- A reply wakes a request that took the reply's number on the table it was read for. -/
theorem hit_numbered (run : Run step start as s) (mem : a ∈ as)
    (woken : T.hits a = some (k, p, c)) : Numbered T as c k (T.tag p) := by
  obtain ⟨i, here⟩ := List.mem_iff_getElem?.mp mem
  obtain ⟨v, _, before, one, _⟩ := run_at run here
  obtain ⟨b, earlier, number⟩ := slot_numbered T before (T.hit one woken).1
  exact ⟨b, List.mem_of_mem_take earlier, number⟩

def Unlisted (c : ι) (s : σ) : Prop := 2 ≤ T.stage s c ∧ ∀ k r, T.slot s k r ≠ some c

theorem unlisted_stable (c : ι) : Stable step start (Unlisted T c) := by
  intro v a w _ h now
  refine ⟨Nat.le_trans now.1 (T.forward c h), ?_⟩
  intro k r listed
  rcases T.slot_gain h listed with old | new
  · exact now.2 k r old
  · have early := (T.list h new).2.1
    have late := now.1
    omega

theorem hit_unlists (run : Run step start as s) (h : step s a t)
    (woken : T.hits a = some (k, p, c)) : Unlisted T c t := by
  obtain ⟨listed, removed, quiet⟩ := T.hit h woken
  refine ⟨Nat.le_trans (slot_stage T run listed) (T.forward c h), ?_⟩
  intro k' r' now
  rcases T.slot_gain h now with old | new
  · obtain ⟨rfl, rfl⟩ := listed_once T run listed old
    rw [removed] at now
    cases now
  · rw [quiet] at new
    cases new

theorem woken_unlisted (run : Run step start as s) (mem : a ∈ as)
    (woken : T.hits a = some (k, p, c)) : Unlisted T c s := by
  obtain ⟨i, here⟩ := List.mem_iff_getElem?.mp mem
  obtain ⟨v, w, before, one, after⟩ := run_at run here
  exact stable_run (unlisted_stable T c) (reachable_step ⟨_, before⟩ one) after
    (hit_unlists T before one woken)

theorem hit_once (run : Run step start as s) {i j : Nat} (here : as[i]? = some a)
    (first : T.hits a = some (k, p, c)) (there : as[j]? = some b)
    (second : T.hits b = some (k', p', c)) : i = j := by
  refine at_most_once (fun a => ∃ k p, T.hits a = some (k, p, c)) (unlisted_stable T c) ?_ ?_ run
    here ⟨k, p, first⟩ there ⟨k', p', second⟩
  · intro v a w _ one found spent
    obtain ⟨k, p, woken⟩ := found
    exact spent.2 _ _ (T.hit one woken).1
  · intro v a w reach one found
    obtain ⟨as, before⟩ := reach
    obtain ⟨k, p, woken⟩ := found
    exact hit_unlists T before one woken

theorem listed_since {v : σ} {bs : List α} (before : Run step start as v) (after : Run step v bs s)
    (listed : T.slot s k r = some c) (begun : 2 ≤ T.stage v c) : T.slot v k r = some c := by
  by_cases somewhere : ∃ k' r', T.slot v k' r' = some c
  · obtain ⟨k', r', early⟩ := somewhere
    have run := run_append before after
    obtain ⟨a, mem, number⟩ := slot_numbered T before early
    obtain ⟨rfl, rfl⟩ := number_once T run (slot_numbered T run listed)
      ⟨a, List.mem_append_left _ mem, number⟩
    exact early
  · have unlisted : Unlisted T c v := by
      refine ⟨begun, ?_⟩
      intro k' r' early
      exact somewhere ⟨k', r', early⟩
    have still := stable_run (unlisted_stable T c) ⟨_, before⟩ after unlisted
    exact absurd listed (still.2 k r)

theorem reply_history (run : Run step start as s) (now : T.reply s c = some p) :
    ∃ a ∈ as, ∃ k, T.hits a = some (k, p, c) := by
  refine event_of_gained (fun a => ∃ k, T.hits a = some (k, p, c))
    (p := fun s => T.reply s c = some p) ?_ (fun v a w h held => T.reply_gain h held) run now
  simp [T.reply_start]

theorem replied_unlisted (run : Run step start as s) (now : T.reply s c = some p) :
    Unlisted T c s := by
  obtain ⟨a, mem, k, woken⟩ := reply_history T run now
  exact woken_unlisted T run mem woken

theorem complete_woken (run : Run step start as s) {i : Nat} (here : as[i]? = some a)
    (completed : T.completes a = some (c, p)) :
    ∃ j b k, j < i ∧ as[j]? = some b ∧ T.hits b = some (k, p, c) := by
  obtain ⟨v, _, before, one, _⟩ := run_at run here
  obtain ⟨b, mem, k, woken⟩ := reply_history T before (T.complete one completed).1
  obtain ⟨j, order, there⟩ := mem_take_index mem
  exact ⟨j, b, k, order, there, woken⟩

end RequestTable

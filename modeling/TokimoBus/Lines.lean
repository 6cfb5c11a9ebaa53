import TokimoBus.Fairness
import TokimoBus.Pipes

/-!
Pipes that are filled from a queue. What is queued waits for a writer, which puts it on the pipe in
order; when the writer ends, what still waits is lost. So what is queued once is in one place. An
errand goes out on such a line, is worked on at its far end, and comes back on another.
-/
namespace Lines
open LabelledRuns Pipes Fairness
variable {σ α φ κ : Type} [DecidableEq φ] {step : σ → α → σ → Prop} {start s : σ} {as : List α}
  {f g : φ} {x y : κ}

/-- Some frames get onto the pipe through the queue only. -/
structure Line (step : σ → α → σ → Prop) (start : σ) (φ : Type) [DecidableEq φ]
    extends Pipe step start φ where
  queues : α → Option φ
  waiting : σ → List φ
  ended : σ → Prop
  Carries : φ → Prop
  drains : ∀ {as s f}, Run step start as s → Carries f → ¬ ended s →
    (as.filterMap writes).count f + (waiting s).count f = (as.filterMap queues).count f
  drops : ∀ {as s f}, Run step start as s → Carries f → ended s →
    waiting s = [] ∧ (as.filterMap writes).count f ≤ (as.filterMap queues).count f

inductive Spot where
  | waiting
  | lost
  | carried
  | arrived
  deriving DecidableEq

def Line.At (line : Line step start φ) (as : List α) (s : σ) (f : φ) : Spot → Prop
  | .waiting => f ∈ line.waiting s
  | .lost => line.ended s ∧ f ∉ as.filterMap line.writes
  | .carried => f ∈ line.content s
  | .arrived => f ∈ as.filterMap line.reads

theorem Line.at_counts (line : Line step start φ) (run : Run step start as s)
    (carries : line.Carries f) (once : (as.filterMap line.queues).count f = 1) :
    (line.waiting s).count f + (as.filterMap line.writes).count f ≤ 1 ∧
      (line.At as s f .lost ↔
        (line.waiting s).count f + (as.filterMap line.writes).count f = 0) := by
  simp only [Line.At, ← List.count_eq_zero]
  by_cases past : line.ended s
  · obtain ⟨empty, few⟩ := line.drops run carries past
    rw [empty, List.count_nil]
    exact ⟨by omega, by simp [past]⟩
  · have queue := line.drains run carries past
    refine ⟨by omega, ⟨fun lost => absurd lost.1 past, fun none => ?_⟩⟩
    omega

theorem Line.at_one (line : Line step start φ) (run : Run step start as s) (carries : line.Carries f)
    (once : (as.filterMap line.queues).count f = 1) : ∃! p, line.At as s f p := by
  obtain ⟨few, lost⟩ := line.at_counts run carries once
  have pipe := congrArg (List.count f) (written_eq line.toPipe run)
  rw [List.count_append] at pipe
  have counts : ∀ r, line.At as s f r ↔ match r with
      | .waiting => 0 < (line.waiting s).count f
      | .lost => (line.waiting s).count f + (as.filterMap line.writes).count f = 0
      | .carried => 0 < (line.content s).count f
      | .arrived => 0 < (as.filterMap line.reads).count f := by
    intro r
    cases r with
    | lost => exact lost
    | waiting | carried | arrived => exact List.count_pos_iff.symm
  have some : ∃ p, line.At as s f p := by
    by_cases waits : 0 < (line.waiting s).count f
    · exact ⟨.waiting, (counts _).mpr waits⟩
    by_cases read : 0 < (as.filterMap line.reads).count f
    · exact ⟨.arrived, (counts _).mpr read⟩
    by_cases there : 0 < (line.content s).count f
    · exact ⟨.carried, (counts _).mpr there⟩
    · exact ⟨.lost, (counts _).mpr (by omega)⟩
  obtain ⟨p, here⟩ := some
  refine ⟨p, here, fun q there => ?_⟩
  have here := (counts p).mp here
  have there := (counts q).mp there
  cases p <;> cases q <;> first | rfl | (simp only at here there; omega)

/-- A line whose writer and whose reader are not put off for ever delivers what is queued on it,
    unless one of them ends. -/
theorem Line.delivers (line : Line step start φ) {own own' : α → Prop} {inv inv' out out' : σ → Prop}
    {lag lag' : σ → Nat} {pops : α → Option φ}
    (writer : Serves step start own inv out line.waiting pops lag)
    (written : ∀ {a g}, pops a = some g → line.writes a = some g)
    (gone : ∀ {s}, line.ended s → out s)
    (reader : Serves step start own' inv' out' line.content line.reads lag')
    (e : Execution step start) (fair : e.Fair own) (fair' : e.Fair own') {n : Nat}
    (now : inv (e.state n)) (now' : inv' (e.state n)) (carries : line.Carries f)
    (once : ((e.acts n).filterMap line.queues).count f = 1) :
    ∃ m, n ≤ m ∧ (out (e.state m) ∨ out' (e.state m) ∨ f ∈ (e.acts m).filterMap line.reads) := by
  have comes : ∀ {m}, n ≤ m → f ∈ (e.acts m).filterMap line.writes →
      ∃ l, n ≤ l ∧ (out (e.state l) ∨ out' (e.state l) ∨ f ∈ (e.acts l).filterMap line.reads) := by
    intro m later mem
    rw [written_eq line.toPipe (e.run m)] at mem
    rcases List.mem_append.mp mem with read | there
    · exact ⟨m, later, Or.inr (Or.inr read)⟩
    · obtain ⟨l, after, ended | ⟨a, label, popped⟩⟩ :=
        reader.served e fair' (e.stays reader.keeps later now') there
      · exact ⟨l, by omega, Or.inr (Or.inl ended)⟩
      · exact ⟨l + 1, by omega, Or.inr (Or.inr
          (List.mem_filterMap.mpr ⟨a, e.happened label, popped⟩))⟩
  obtain ⟨p, here, _⟩ := line.at_one (e.run n) carries once
  cases p with
  | lost => exact ⟨n, Nat.le_refl n, Or.inl (gone here.1)⟩
  | arrived => exact ⟨n, Nat.le_refl n, Or.inr (Or.inr here)⟩
  | carried =>
    refine comes (Nat.le_refl n) ?_
    rw [written_eq line.toPipe (e.run n)]
    exact List.mem_append_right _ here
  | waiting =>
    obtain ⟨m, later, ended | ⟨a, label, popped⟩⟩ := writer.served e fair now here
    · exact ⟨m, later, Or.inl ended⟩
    · exact comes (Nat.le_succ_of_le later)
        (List.mem_filterMap.mpr ⟨a, e.happened label, written popped⟩)

inductive Place (κ φ : Type) where
  | out (p : Spot)
  | work (x : κ)
  | dropped (x : κ)
  | back (x : κ) (g : φ) (p : Spot)

def Place.Moving : Place κ φ → Prop
  | .out .waiting | .out .carried | .work _ | .back _ _ .waiting | .back _ _ .carried => True
  | _ => False

/-- What workers do with what arrives for them: who has taken the errand, who still works on it,
    who has given it up, and what they have put on the line back. -/
structure Works (κ φ : Type) where
  Taken : κ → Prop
  Busy : κ → Prop
  Dropped : κ → Prop
  Answered : κ → φ → Prop

def Stands (out back : Line step start φ) (works : Works κ φ) (as : List α) (s : σ) (f : φ) :
    Place κ φ → Prop
  | .out p => p ≠ .arrived ∧ out.At as s f p
  | .work x => works.Taken x ∧ works.Busy x
  | .dropped x => works.Taken x ∧ works.Dropped x
  | .back x g p => works.Taken x ∧ works.Answered x g ∧ back.At as s g p

/-- One worker takes what has arrived, and does one thing with it. -/
structure Errand (out back : Line step start φ) (works : Works κ φ) (as : List α) (f : φ) : Prop where
  carries : out.Carries f
  sent : (as.filterMap out.queues).count f = 1
  arrives : f ∈ as.filterMap out.reads ↔ ∃ x, works.Taken x
  alone : ∀ x y, works.Taken x → works.Taken y → x = y
  fate : ∀ x, works.Taken x → works.Busy x ∨ works.Dropped x ∨ ∃ g, works.Answered x g
  busy : ∀ x, works.Taken x → works.Busy x → ¬ works.Dropped x ∧ ∀ g, ¬ works.Answered x g
  dropped : ∀ x g, works.Taken x → works.Dropped x → ¬ works.Answered x g
  single : ∀ x g g', works.Taken x → works.Answered x g → works.Answered x g' → g = g'
  returns : ∀ x g, works.Taken x → works.Answered x g →
    back.Carries g ∧ (as.filterMap back.queues).count g = 1

theorem Errand.stands_one {out back : Line step start φ} {works : Works κ φ}
    (errand : Errand out back works as f) (run : Run step start as s) :
    ∃! p, Stands out back works as s f p := by
  obtain ⟨p, here, only⟩ := out.at_one run errand.carries errand.sent
  by_cases arrived : p = .arrived
  · subst arrived
    obtain ⟨x, taken⟩ := errand.arrives.mp here
    have inside : ∀ {q : Place κ φ}, Stands out back works as s f q → q = .work x ∧ works.Busy x ∨
        q = .dropped x ∧ works.Dropped x ∨
        ∃ g p, q = .back x g p ∧ works.Answered x g ∧ back.At as s g p := by
      intro q stands
      cases q with
      | out p => exact absurd (only p stands.2) stands.1
      | work y =>
        obtain rfl := errand.alone y x stands.1 taken
        exact Or.inl ⟨rfl, stands.2⟩
      | dropped y =>
        obtain rfl := errand.alone y x stands.1 taken
        exact Or.inr (Or.inl ⟨rfl, stands.2⟩)
      | back y g p =>
        obtain rfl := errand.alone y x stands.1 taken
        exact Or.inr (Or.inr ⟨g, p, rfl, stands.2⟩)
    rcases errand.fate x taken with busy | dropped | ⟨g, answered⟩
    · obtain ⟨undropped, unanswered⟩ := errand.busy x taken busy
      refine ⟨.work x, ⟨taken, busy⟩, fun q stands => ?_⟩
      rcases inside stands with ⟨rfl, _⟩ | ⟨_, dropped⟩ | ⟨g, _, _, answered, _⟩
      · rfl
      · exact absurd dropped undropped
      · exact absurd answered (unanswered g)
    · refine ⟨.dropped x, ⟨taken, dropped⟩, fun q stands => ?_⟩
      rcases inside stands with ⟨_, busy⟩ | ⟨rfl, _⟩ | ⟨g, _, _, answered, _⟩
      · exact absurd dropped (errand.busy x taken busy).1
      · rfl
      · exact absurd answered (errand.dropped x g taken dropped)
    · obtain ⟨carries, sent⟩ := errand.returns x g taken answered
      obtain ⟨p, there, alone⟩ := back.at_one run carries sent
      refine ⟨.back x g p, ⟨taken, answered, there⟩, fun q stands => ?_⟩
      rcases inside stands with ⟨_, busy⟩ | ⟨_, dropped⟩ | ⟨g', p', rfl, answered', there'⟩
      · exact absurd answered ((errand.busy x taken busy).2 g)
      · exact absurd answered (errand.dropped x g taken dropped)
      · obtain rfl := errand.single x g g' taken answered answered'
        rw [alone p' there']
  · have untaken : ∀ y, ¬ works.Taken y := by
      intro y taken
      exact arrived (only .arrived (errand.arrives.mpr ⟨y, taken⟩)).symm
    refine ⟨.out p, ⟨arrived, here⟩, fun q stands => ?_⟩
    cases q with
    | out q => rw [only q stands.2]
    | work y | dropped y | back y => exact absurd stands.1 (untaken y)

end Lines

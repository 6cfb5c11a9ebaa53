import TokimoBus.Nested
import TokimoBus.PendingTables

/-!
What an undisturbed run of nested calls keeps. Both ends of every connection stay in their
loops, nobody else connects, and every session keeps its generation.
-/
namespace TokimoNested
open TokimoFrame TokimoOutbound TokimoBroker TokimoSession TokimoClient TokimoSystem TokimoChannel
open TokimoCalls LabelledRuns BoundedStream Pipes
variable {env : Env} {debug : BusFrame → String} {programs : Programs} {cap : Capacity}
  {procs : Processes} {s s' : Nested} {u v : System} {a : NestedAct} {x : SystemAct}
  {acts : List NestedAct} {first xs : List SystemAct} {k : ConnId} {t : TaskId} {c : CallId}

abbrev NestedRun (env : Env) (debug : BusFrame → String) (programs : Programs) (cap : Capacity)
    (u : System) (acts : List NestedAct) (s : Nested) : Prop :=
  Run (NestedStep env debug programs cap) (Nested.start u) acts s

def NestedAct.ofSystem : NestedAct → List SystemAct
  | .system x => [x]
  | .handle k t inv h => [.client k (.handle t inv h)]
  | .invoke k _ _ i x => [.client k (.begin i x)]
  | .drop k _ _ i => [.client k (.cancel i)]
  | .ret k t inv h result => [.client k (.handled t inv h result)]
  | _ => []

def systemActs (acts : List NestedAct) : List SystemAct := acts.flatMap NestedAct.ofSystem

abbrev UndisturbedRun (env : Env) (debug : BusFrame → String) (u : System) (xs : List SystemAct)
    (v : System) : Prop :=
  Run (Guarded (SystemStep env debug) fun _ x => Undisturbed x) u xs v

theorem step_system (step : NestedStep env debug programs cap s a s') :
    UndisturbedRun env debug s.system a.ofSystem s'.system := by
  cases step with
  | system one undisturbed => exact run_single ⟨one, undisturbed⟩
  | handle one | invoke _ one | drop _ one | ret _ one => exact run_single ⟨one, trivial⟩
  | _ => exact Run.nil

theorem nested_system (run : NestedRun env debug programs cap u acts s) :
    UndisturbedRun env debug u (systemActs acts) s.system :=
  run_map Nested.system NestedAct.ofSystem (fun _ _ _ _ step => step_system step) run

def Works (o : Outbound) : Prop := o.writer = .idle ∨ ∃ f, o.writer = .writing f

structure Serving (s : System) (k : ConnId) : Prop where
  phase : (s.world.phase k).rank = 9
  runner : (s.client k).runner = .reading
  up : Works (s.client k).out
  down : Works (s.world.out k)

theorem works_open {o : Outbound} (works : Works o) : o.IsOpen := by
  rcases works with idle | ⟨f, busy⟩
  · simp [Outbound.IsOpen, idle]
  · simp [Outbound.IsOpen, busy]

theorem works_writer {e : Encoder} {o o' : Outbound} {x : WriterAct} (one : WriterStep e o x o')
    (intact : Intact x) : Works o' := by
  cases one with
  | recv => exact Or.inr ⟨_, rfl⟩
  | wrote => exact Or.inl rfl
  | _ => cases intact

theorem broker_serves {w w' : World} {a : Act} (step : Step env w a w')
    (undisturbed : Undisturbed (.broker a)) (phase : (w.phase k).rank = 9) (works : Works (w.out k)) :
    (w'.phase k).rank = 9 ∧ Works (w'.out k) := by
  have stays : ∀ {j : ConnId} {p q : Phase}, w.phase j = q → (q.rank = 9 → p.rank = 9) →
      (Function.update w.phase j p k).rank = 9 := by
    intro j p q here loops
    rcases moved_or (c := k) (p := p) here with same | ⟨rfl, was⟩
    · rwa [same]
    · rw [Function.update_self]
      exact loops (was ▸ phase)
  have kept : ∀ {j : ConnId} {o : Outbound}, (j = k → Works o) →
      Works (Function.update w.out j o k) := by
    intro j o same
    by_cases eq : k = j
    · subst eq
      rw [Function.update_self]
      exact same rfl
    · rwa [Function.update_of_ne eq]
  have apart : ∀ {j : ConnId} {q : Phase}, w.phase j = q → q.rank ≠ 9 → j ≠ k := by
    rintro j q here other rfl
    rw [here] at phase
    exact other phase
  cases step with
  | accept | hangup => exact undisturbed.elim
  | deliver here =>
    refine ⟨stays here (by simp [Phase.rank, Stage.rank]), kept ?_⟩
    rintro rfl
    exact works
  | send | answer | shutdownSend =>
    refine ⟨phase, kept ?_⟩
    rintro rfl
    exact works
  | reject here | rejectBroken here | ack here | ackBroken here | rollback here | abort here =>
    refine ⟨stays here (by simp [Phase.rank, Stage.rank]), kept ?_⟩
    intro same
    exact absurd same (apart here (by simp [Phase.rank, Stage.rank]))
  | writer one =>
    refine ⟨phase, kept ?_⟩
    rintro rfl
    exact works_writer one undisturbed
  | target here =>
    refine ⟨stays here ?_, works⟩
    unfold targetStage
    split <;> simp [Phase.rank, Stage.rank]
  | hello here | consume here | noHello here | clientId here | generate here | publish here
  | attach here | probe here | fanout here | undelivered here | fanned here | detach here
  | check here | forget here | removeIf here =>
    exact ⟨stays here (by simp [Phase.rank, Stage.rank]), works⟩
  | _ => exact ⟨phase, works⟩

theorem client_serves {encoder : Encoder} {c c' : Client} {b : ClientAct}
    (step : ClientStep encoder debug c b c') (undisturbed : Undisturbed (.client k b))
    (runner : c.runner = .reading) (works : Works c.out) :
    c'.runner = .reading ∧ Works c'.out := by
  cases step with
  | writer one => exact ⟨runner, works_writer one undisturbed⟩
  | greet here | greetBroken here | acked here | refused here | unread here | run here | stop here
  | finish here =>
    rw [runner] at here
    cases here
  | hangup => exact undisturbed.elim
  | _ => exact ⟨runner, works⟩

theorem serving_step (step : SystemStep env debug u x v) (undisturbed : Undisturbed x)
    (serving : Serving u k) : Serving v k := by
  obtain ⟨phase, runner, up, down⟩ := serving
  cases step with
  | broker one =>
    obtain ⟨phase', down'⟩ := broker_serves one undisturbed phase down
    exact ⟨phase', runner, up, down'⟩
  | @client j b c one =>
    by_cases eq : j = k
    · subst eq
      obtain ⟨runner', up'⟩ := @client_serves debug j _ _ _ _ one undisturbed runner up
      exact ⟨phase, by simpa [System.clientMoved] using runner',
        by simpa [System.clientMoved] using up', down⟩
    · constructor
      · exact phase
      · simpa [System.clientMoved, Ne.symm eq] using runner
      · simpa [System.clientMoved, Ne.symm eq] using up
      · exact down

theorem absent_step (step : SystemStep env debug u x v) (undisturbed : Undisturbed x)
    (absent : Absent u k) : Absent v k := by
  obtain ⟨phase, runner⟩ := absent
  cases step with
  | broker one =>
    refine ⟨?_, runner⟩
    have still : ∀ {j : ConnId} {p q : Phase}, u.world.phase j = q → q ≠ .unused →
        Function.update u.world.phase j p k = .unused := by
      intro j p q here other
      rw [Function.update_of_ne]
      · exact phase
      · rintro rfl
        exact other (here.symm.trans phase)
    cases one with
    | accept => exact undisturbed.elim
    | hello here | consume here | noHello here | clientId here | generate here | publish here
    | attach here | probe here | fanout here | undelivered here | fanned here | detach here
    | check here | forget here | removeIf here | deliver here | target here | reject here
    | rejectBroken here | ack here | ackBroken here | rollback here | abort here | hangup here =>
      exact still here (by simp)
    | _ => exact phase
  | @client j b c one =>
    refine ⟨phase, ?_⟩
    by_cases eq : k = j
    · subst eq
      simp only [System.clientMoved, Function.update_self]
      cases one with
      | greet | greetBroken => exact undisturbed.elim
      | acked here | refused here | unread here | run here | stop here | finish here
      | hangup here =>
        rw [runner] at here
        cases here
      | _ => exact runner
    · simpa [System.clientMoved, eq] using runner

theorem absent_run (run : UndisturbedRun env debug u xs v) (absent : Absent u k) : Absent v k := by
  induction run with
  | nil => exact absent
  | snoc _ last ih => exact absent_step last.1 last.2 ih

theorem absent_idle (absent : Absent u k) : ¬ Serving u k := by
  intro serving
  have phase := serving.phase
  rw [absent.phase] at phase
  cases phase

/-- Every connection is served, or has never been made. -/
def Settled (u : System) : Prop := ∀ k, Serving u k ∨ Absent u k

theorem settled_step (step : SystemStep env debug u x v) (undisturbed : Undisturbed x)
    (settled : Settled u) : Settled v :=
  fun k => (settled k).imp (serving_step step undisturbed) (absent_step step undisturbed)

theorem joined_serving (joined : Joined u k) : Serving u k where
  phase := by
    obtain ⟨ses, here⟩ := joined.phase
    rw [here]
    rfl
  runner := joined.runner
  up := Or.inl joined.up.1
  down := Or.inl joined.down.1

theorem undisturbed_settled (assembled : Assembled u) (run : UndisturbedRun env debug u xs v) :
    Settled v := by
  induction run with
  | nil => exact fun k => (assembled.apps k).imp_left joined_serving
  | snoc _ last ih => exact settled_step last.1 last.2 ih

theorem undisturbed_apart (start : SystemRun env debug procs first u) (assembled : Assembled u)
    (run : UndisturbedRun env debug u xs v) : TokimoIdentity.Apart v.world := by
  have part := broker_part (guarded_run run)
  have same : ∀ k ses, v.world.session k = some ses → u.world.session k = some ses := by
    intro k ses now
    rcases assembled.apps k with joined | absent
    · obtain ⟨old, here⟩ := joined.phase
      have early := TokimoIdentity.session_of_phase here
      have kept := TokimoIdentity.session_keeps_run ⟨_, broker_run start⟩ part early
      rw [now] at kept
      cases kept
      exact early
    · have still := (absent_run run absent).phase
      simp [World.session, still, Phase.session] at now
  intro j k ses ses' one two
  exact assembled.generations j k ses ses' (same j ses one) (same k ses' two)

end TokimoNested

import Mathlib.Algebra.BigOperators.Group.Finset.Basic
import TokimoBus.SupervisorLiveness

/-!
How often a restart loop starts a process. The supervisor runs on a clock that goes on between its
steps, and a loop that sleeps wakes when its pause is over, or later. Every pause is the backoff of
the app at that time: one second at least, five minutes at most, and twice as long after each end
that was not clean.
-/
namespace TokimoSupervisor
open TokimoFrame LabelledRuns

structure Timed where
  sup : Supervisor
  clock : Nat
  wakes : TaskId → Nat

def Timed.new (endpoint : String) : Timed := ⟨Supervisor.new endpoint, 0, fun _ => 0⟩

def TaskPhase.pausing : TaskPhase → Option AppId
  | .waiting _ a _ | .starting (.resident _) a _ => some a
  | _ => none

def pause (s : Supervisor) : SupervisorAct → Option (TaskId × Duration)
  | .waited t _ _ sleep => some (t, sleep)
  | .waitFailed t _ | .spawnFailed t _ _ =>
    ((s.task t).pausing.bind s.app).map fun st => (t, st.backoff.bump.1)
  | _ => none

def Timed.after (s : Timed) (x : SupervisorAct) (v : Supervisor) : Timed where
  sup := v
  clock := s.clock
  wakes := match pause s.sup x with
    | some (t, sleep) => Function.update s.wakes t (s.clock + sleep.nanos)
    | none => s.wakes

inductive TimedAct where
  | pass (elapsed : Nat)
  | act (x : SupervisorAct)
  deriving DecidableEq

inductive TimedStep : Timed → TimedAct → Timed → Prop where
  | pass {s : Timed} {elapsed : Nat} :
      TimedStep s (.pass elapsed) { s with clock := s.clock + elapsed }
  | act {s : Timed} {x : SupervisorAct} {v : Supervisor} (h : SupervisorStep s.sup x v)
      (rested : ∀ t, x = .wake t → s.wakes t ≤ s.clock) : TimedStep s (.act x) (s.after x v)

abbrev TimedRun (endpoint : String) (acts : List TimedAct) (s : Timed) : Prop :=
  Run TimedStep (Timed.new endpoint) acts s

def TimedAct.untimed : TimedAct → List SupervisorAct
  | .pass _ => []
  | .act x => [x]

section laps
variable {s s' : Supervisor} {x : SupervisorAct} {t : TaskId} {a : AppId} {st st' : AppState}
  {endpoint : String}

inductive Stage where
  | ahead
  | started (a : AppId)
  | asleep
  | finished
  deriving DecidableEq

def TaskPhase.stage : TaskPhase → Stage
  | .starting _ a _ | .waitLock _ a | .waiting _ a _ => .started a
  | .failing _ _ | .resting _ _ => .asleep
  | .done _ | .ended => .finished
  | _ => .ahead

def Calm (s : Supervisor) (t : TaskId) (x : SupervisorAct) : Prop :=
  (∀ a token, x ≠ .issue t a token) ∧ ∀ sleep, pause s x ≠ some (t, sleep)

inductive Lap (s s' : Supervisor) (t : TaskId) : SupervisorAct → Stage → Stage → Prop where
  | issue {a : AppId} {token : String} : Lap s s' t (.issue t a token) .ahead (.started a)
  | sleep {x : SupervisorAct} {a : AppId} {st : AppState} {b : Backoff}
      (pauses : pause s x = some (t, b.bump.1)) (found : s.app a = some st)
      (length : b = st.backoff ∨ b = Backoff.new ∧ ∃ c sleep, x = .waited t c true sleep)
      (after : s'.app a = some { st with backoff := b.bump.2 }) : Lap s s' t x (.started a) .asleep
  | wake : Lap s s' t (.wake t) .asleep .ahead
  | finish {x : SupervisorAct} {p : Stage} (calm : Calm s t x) (awake : p ≠ .asleep) :
      Lap s s' t x p .finished
  | stay {x : SupervisorAct} {p : Stage} (calm : Calm s t x) : Lap s s' t x p p

def paced : SupervisorAct → Option TaskId
  | .waited t _ _ _ | .waitFailed t _ | .spawnFailed t _ _ | .issue t _ _ => some t
  | _ => none

theorem calm_other (other : paced x ≠ some t) : Calm s t x := by
  constructor
  · intro a token same
    rw [same] at other
    exact other rfl
  · intro sleep pauses
    cases x with
    | waited t' c success d =>
      cases pauses
      exact other rfl
    | waitFailed t' c | spawnFailed t' a message =>
      obtain ⟨st, _, same⟩ := Option.map_eq_some_iff.mp pauses
      cases same
      exact other rfl
    | _ => cases pauses

theorem step_lap (h : SupervisorStep s x s') (t : TaskId) :
    Lap s s' t x (s.task t).stage (s'.task t).stage := by
  have moved : ∀ {d : TaskId} {p q : TaskPhase}, s.task d = q →
      (t ≠ d → paced x ≠ some t) → (t = d → Lap s s' t x q.stage p.stage) →
      Lap s s' t x (s.task t).stage (Function.update s.task d p t).stage := by
    intro d p q here apart lap
    by_cases eq : t = d
    · rw [eq, Function.update_self, here, ← eq]
      exact lap eq
    · rw [Function.update_of_ne eq]
      exact .stay (calm_other (apart eq))
  have unpaced : paced x = none → Calm s t x := by
    intro none
    exact calm_other (by simp [none])
  cases h with
  | register | exit | die | hello => exact .stay (unpaced rfl)
  | collect =>
    simp only [Supervisor.setApp, dropChild_task]
    exact .stay (unpaced rfl)
  | issue here =>
    refine moved here (by simp [paced, eq_comm]) ?_
    intro same
    subst same
    exact .issue
  | @waited service d a c st success b here finished found length =>
    refine moved here (by simp [paced, eq_comm]) ?_
    intro same
    subst same
    refine .sleep rfl found ?_ (by simp [Supervisor.setTask, Supervisor.setApp])
    cases success with
    | true => exact Or.inr ⟨length, c, _, rfl⟩
    | false => exact Or.inl length
  | waitFailed here found | spawnFailed here found =>
    refine moved here (by simp [paced, eq_comm]) ?_
    intro same
    subst same
    refine .sleep ?_ found (Or.inl rfl) (by simp [Supervisor.setTask, Supervisor.setApp])
    simp [pause, here, TaskPhase.pausing, found]
  | wakeResting here | wakeFailing here =>
    refine moved here (by simp [paced]) ?_
    intro same
    subst same
    exact .wake
  | ensureFailed here =>
    refine moved here (by simp [paced, eq_comm]) ?_
    intro same
    subst same
    exact .finish ⟨by simp, by simp [pause, here, TaskPhase.pausing]⟩ (by simp [TaskPhase.stage])
  | @stopWaitFailed p d a c here =>
    have tasks : ((s.dropChild (some c)).setTask d (.remove p)).task =
        Function.update s.task d (.remove p) := by simp [Supervisor.setTask]
    rw [tasks]
    refine moved here (by simp [paced, eq_comm]) ?_
    intro same
    subst same
    exact .stay ⟨by simp, by simp [pause, here, TaskPhase.pausing]⟩
  | @spawned d u a st token c here =>
    have tasks : ((s.startChild a st c token).setTask d (u.succeeded a)).task =
        Function.update s.task d (u.succeeded a) := by simp [Supervisor.setTask]
    rw [tasks]
    refine moved here (by simp [paced]) fun _ => ?_
    cases u with
    | resident service => exact .stay (unpaced rfl)
    | ensure => exact .finish (unpaced rfl) (by simp [TaskPhase.stage])
  | @inserted spec d a here =>
    refine moved here (by simp [paced]) fun _ => ?_
    cases spec.lifecycle with
    | resident => exact .stay (unpaced rfl)
    | onDemand => exact .finish (unpaced rfl) (by simp [TaskPhase.stage])
  | @loop service d d' here new =>
    simp only [Supervisor.setTask]
    by_cases eq : t = d
    · subst eq
      rw [Function.update_self, here]
      exact .finish (unpaced rfl) (by simp [TaskPhase.stage])
    · rw [Function.update_of_ne eq]
      exact moved new (by simp [paced]) fun _ => .stay (unpaced rfl)
  | residentGone here | waitNone here | ensureMissing here | running here | tryWaitFailed here
  | unknownUnregister here | removedUnregister here =>
    refine moved here (by simp [paced]) fun _ => ?_
    exact .finish (unpaced rfl) (by simp [TaskPhase.stage])
  | startResident here | residentGet here | spawnLock here | waitLock here | ensureUp here
  | ensureGet here | ensureLock here | absent here | change here | known here
  | unknownReplace here | stopGet here | stopMissing here | take here | takeNone here
  | kill here | killFailed here | killWaitFailed here | killed here | stopped here
  | removedReplace here =>
    refine moved here (by simp [paced]) fun _ => ?_
    exact .stay (unpaced rfl)

inductive BackoffChange (s : Supervisor) (a : AppId) (x : SupervisorAct) : AppState → Prop where
  | new {st : AppState} (absent : s.app a = none) (fresh : st.backoff = Backoff.new) :
      BackoffChange s a x st
  | kept {old st : AppState} (found : s.app a = some old) (same : st.backoff = old.backoff) :
      BackoffChange s a x st
  | bumped {t : TaskId} {old st : AppState} {b : Backoff} (found : s.app a = some old)
      (started : (s.task t).stage = .started a) (pauses : pause s x = some (t, b.bump.1))
      (length : b = old.backoff ∨ b = Backoff.new ∧ ∃ c sleep, x = .waited t c true sleep)
      (after : st.backoff = b.bump.2) : BackoffChange s a x st

theorem step_backoff (h : SupervisorStep s x s') (now : s'.app a = some st') :
    BackoffChange s a x st' := by
  have updated : ∀ {b : AppId} {old new : AppState}, s.app b = some old →
      (a = b → BackoffChange s a x new) → Function.update s.app b (some new) a = some st' →
      BackoffChange s a x st' := by
    intro b old new found change now
    by_cases eq : a = b
    · rw [eq, Function.update_self, Option.some.injEq] at now
      rw [← now]
      exact change eq
    · rw [Function.update_of_ne eq] at now
      exact .kept now rfl
  have inserted : ∀ {b : AppId} {spec : AppSpec}, s.app b = none →
      Function.update s.app b (some (AppState.new spec)) a = some st' →
      BackoffChange s a x st' := by
    intro b spec absent now
    by_cases eq : a = b
    · subst eq
      rw [Function.update_self, Option.some.injEq] at now
      exact .new absent (by rw [← now]; rfl)
    · rw [Function.update_of_ne eq] at now
      exact .kept now rfl
  cases h with
  | register new => exact inserted new now
  | inserted _ new => exact inserted new now
  | @waited service d b c st success k here _ found length =>
    refine updated found (fun eq => ?_) now
    subst eq
    refine .bumped found (by rw [here]; rfl) rfl ?_ rfl
    cases success with
    | true => exact Or.inr ⟨length, c, _, rfl⟩
    | false => exact Or.inl length
  | waitFailed here found | spawnFailed here found =>
    refine updated found (fun eq => ?_) now
    subst eq
    refine .bumped found (by rw [here]; rfl) ?_ (Or.inl rfl) rfl
    simp [pause, here, TaskPhase.pausing, found]
  | take here _ found =>
    refine updated found (fun eq => ?_) now
    subst eq
    exact .kept found rfl
  | @spawned t u b st token c here found new =>
    simp only [Supervisor.setTask, Supervisor.startChild, Supervisor.setApp, dropChild_app] at now
    refine updated found (fun eq => ?_) now
    subst eq
    exact .kept found rfl
  | stopWaitFailed =>
    simp only [Supervisor.setTask, dropChild_app] at now
    exact .kept now rfl
  | @collect b =>
    simp only [Supervisor.setApp, dropChild_app] at now
    by_cases eq : a = b
    · rw [eq, Function.update_self] at now
      cases now
    · rw [Function.update_of_ne eq] at now
      exact .kept now rfl
  | _ => exact .kept now rfl

def second : Nat := (Duration.fromSecs 1).nanos

theorem bump_next (b : Backoff) : b.bump.2.next.nanos = min (b.next.nanos * 2) (300 * second) := rfl

theorem backoff_floor (reach : SupervisorReachable endpoint s) (found : s.app a = some st) :
    second ≤ st.backoff.next.nanos := by
  have floor : ∀ a st, s.app a = some st → second ≤ st.backoff.next.nanos := by
    refine reachable_invariant
      (p := fun s => ∀ a st, s.app a = some st → second ≤ st.backoff.next.nanos) ?_ ?_ reach
    · intro a st found
      cases found
    · intro v x v' _ h known a st now
      cases step_backoff h now with
      | new _ fresh =>
        rw [fresh]
        exact Nat.le_refl _
      | kept found same =>
        rw [same]
        exact known a _ found
      | @bumped _ _ _ b found _ _ length after =>
        have low : second ≤ b.next.nanos := by
          rcases length with rfl | ⟨rfl, _⟩
          · exact known a _ found
          · exact Nat.le_refl _
        rw [after, bump_next]
        omega
  exact floor a st found

end laps

variable {s s' : Timed} {y : TimedAct} {acts : List TimedAct} {t : TaskId} {a : AppId}
  {endpoint : String} {f : Nat → Nat} {mine : AppId → Bool} {n : Nat}

theorem untimed_run (run : TimedRun endpoint acts s) :
    SupervisorRun endpoint (acts.flatMap TimedAct.untimed) s.sup := by
  induction run with
  | nil => exact Run.nil
  | @snoc acts v w y _ last ih =>
    rw [List.flatMap_append]
    refine run_append ih ?_
    cases last with
    | pass => exact Run.nil
    | act h => exact run_single h

def issues (t : TaskId) (mine : AppId → Bool) : TimedAct → Bool
  | .act (.issue t' a _) => t' == t && mine a
  | _ => false

def attempts (t : TaskId) (mine : AppId → Bool) (acts : List TimedAct) : Nat :=
  acts.countP (issues t mine)

/-- The time that passes until the start number `n`, if the pause after the start number `i` is `f i`
    at least. -/
def owes (f : Nat → Nat) (n : Nat) : Nat := ∑ i ∈ Finset.range n, f i

theorem owes_next : owes f n ≤ owes f (n - 1) + f (n - 1) := by
  cases n with
  | zero => simp [owes]
  | succ n => simp [owes, Finset.sum_range_succ]

/-- The task has started `n` processes of these apps, and the time for it has passed. -/
structure Place (f : Nat → Nat) (mine : AppId → Bool) (t : TaskId) (n : Nat) (s : Timed) : Prop where
  paid : owes f (n - 1) ≤ s.clock
  ahead : (s.sup.task t).stage = .ahead → owes f n ≤ s.clock
  started : ∀ a, (s.sup.task t).stage = .started a → mine a = false → owes f n ≤ s.clock
  asleep : (s.sup.task t).stage = .asleep → owes f n ≤ s.wakes t ∨ owes f n ≤ s.clock

theorem calm_issues {x : SupervisorAct} (calm : Calm s.sup t x) : issues t mine (.act x) = false := by
  cases x with
  | issue t' a token =>
    have ne : t' ≠ t := by
      intro same
      exact calm.1 a token (by rw [same])
    simp [issues, ne]
  | _ => rfl

theorem calm_wakes {x : SupervisorAct} {v : Supervisor} (calm : Calm s.sup t x) :
    (s.after x v).wakes t = s.wakes t := by
  simp only [Timed.after]
  cases paused : pause s.sup x with
  | none => rfl
  | some p =>
    obtain ⟨d, sleep⟩ := p
    have ne : t ≠ d := by
      intro same
      subst same
      exact calm.2 sleep paused
    exact Function.update_of_ne ne _ _

theorem place_step (step : TimedStep s y s') (place : Place f mine t n s)
    (pays : ∀ x a sleep, y = .act x → (s.sup.task t).stage = .started a → mine a = true →
      pause s.sup x = some (t, sleep) → f (n - 1) ≤ sleep.nanos) :
    Place f mine t (n + if issues t mine y then 1 else 0) s' := by
  cases step with
  | @pass elapsed =>
    have later : ∀ {k : Nat}, k ≤ s.clock → k ≤ s.clock + elapsed := Nat.le_add_right_of_le
    refine ⟨later place.paid, fun here => later (place.ahead here), fun a here other =>
      later (place.started a here other), fun here => (place.asleep here).imp_right later⟩
  | @act x v h rested =>
    have lap := step_lap h t
    have clock : (s.after x v).clock = s.clock := rfl
    obtain ⟨paid, ahead, started, asleep⟩ := place
    generalize before : (s.sup.task t).stage = p at lap ahead started asleep pays
    generalize after : (v.task t).stage = q at lap
    have at_stage : ∀ {r : Stage}, ((s.after x v).sup.task t).stage = r → r = q :=
      fun here => here.symm.trans after
    have never : ∀ {r : Stage} {P : Prop}, r ≠ q → ((s.after x v).sup.task t).stage = r → P :=
      fun ne here => absurd (at_stage here) ne
    cases lap with
    | @issue b token =>
      have owed := ahead rfl
      cases own : mine b with
      | true =>
        have one : issues t mine (.act (.issue t b token)) = true := by simp [issues, own]
        rw [one]
        refine ⟨owed, never (by simp), fun a here other => ?_,
          never (by simp)⟩
        cases at_stage here
        rw [own] at other
        cases other
      | false =>
        have none : issues t mine (.act (.issue t b token)) = false := by simp [issues, own]
        rw [none]
        exact ⟨paid, never (by simp), fun _ _ _ => owed,
          never (by simp)⟩
    | @sleep _ b st k pauses found =>
      have none : issues t mine (.act x) = false := by
        cases x with
        | issue => cases pauses
        | _ => rfl
      have wakes : (s.after x v).wakes t = s.clock + k.bump.1.nanos := by
        simp [Timed.after, pauses]
      rw [none]
      refine ⟨paid, never (by simp), fun _ here _ => never (by simp) here,
        fun _ => ?_⟩
      cases own : mine b with
      | true =>
        have long := pays x b k.bump.1 rfl rfl own pauses
        have next := @owes_next f n
        exact Or.inl (by rw [wakes]; simpa using (by omega : owes f n ≤ s.clock + k.bump.1.nanos))
      | false => exact Or.inr (started b rfl own)
    | wake =>
      have owed : owes f n ≤ s.clock := by
        rcases asleep rfl with slept | early
        · exact Nat.le_trans slept (rested t rfl)
        · exact early
      exact ⟨paid, fun _ => owed, fun _ _ _ => owed, fun _ => Or.inr owed⟩
    | finish calm =>
      rw [calm_issues calm]
      exact ⟨paid, never (by simp), fun _ here _ => never (by simp) here,
        never (by simp)⟩
    | stay calm =>
      rw [calm_issues calm]
      refine ⟨paid, fun here => ahead (at_stage here).symm, fun a here other =>
        started a (at_stage here).symm other, fun here => ?_⟩
      rw [calm_wakes calm]
      exact asleep (at_stage here).symm

theorem attempts_snoc : attempts t mine (acts ++ [y]) =
    attempts t mine acts + if issues t mine y then 1 else 0 := by
  unfold attempts
  rw [List.countP_append, List.countP_singleton]

theorem place_start (endpoint : String) : Place f mine t 0 (Timed.new endpoint) := by
  constructor <;> simp [owes]

/-- A pause is the backoff of the app, and the app is in the map of apps as long as it lasts. -/
theorem pause_length {v : Supervisor} {x : SupervisorAct} {sleep : Duration}
    (h : SupervisorStep s.sup x v) (started : (s.sup.task t).stage = .started a)
    (pauses : pause s.sup x = some (t, sleep)) : ∃ st, s.sup.app a = some st ∧
      (sleep = st.backoff.next ∨ sleep = Backoff.new.next ∧ ∃ c d, x = .waited t c true d) := by
  have lap := step_lap h t
  rw [started] at lap
  generalize (v.task t).stage = q at lap
  cases lap with
  | @sleep _ _ st b pauses' found length =>
    rw [pauses, Option.some.injEq, Prod.mk.injEq] at pauses'
    refine ⟨st, found, ?_⟩
    rcases length with rfl | ⟨rfl, c, d, same⟩
    · exact Or.inl pauses'.2
    · exact Or.inr ⟨pauses'.2, c, d, same⟩
  | finish calm | stay calm => exact absurd pauses (calm.2 sleep)

theorem pause_floor {v : Supervisor} {x : SupervisorAct} {sleep : Duration}
    (run : TimedRun endpoint acts s) (h : SupervisorStep s.sup x v)
    (started : (s.sup.task t).stage = .started a) (pauses : pause s.sup x = some (t, sleep)) :
    second ≤ sleep.nanos := by
  obtain ⟨st, found, same | ⟨same, _⟩⟩ := pause_length h started pauses
  · rw [same]
    exact backoff_floor ⟨_, untimed_run run⟩ found
  · rw [same]
    exact Nat.le_refl _

theorem timed_append {r : Timed} {v : Supervisor} {xs : List SupervisorAct}
    (first : Run TimedStep r acts s) (run : Run SupervisorStep s.sup xs v)
    (awake : ∀ x ∈ xs, ∀ t, x ≠ .wake t) :
    ∃ s', Run TimedStep r (acts ++ xs.map .act) s' ∧ s'.sup = v := by
  induction run with
  | nil => exact ⟨s, by simpa using first, rfl⟩
  | @snoc xs v w x _ last ih =>
    obtain ⟨u, before, rfl⟩ := ih fun x mem => awake x (List.mem_append_left _ mem)
    refine ⟨u.after x w, ?_, rfl⟩
    rw [List.map_append, ← List.append_assoc]
    refine before.snoc (.act last fun t wakes => ?_)
    exact absurd wakes (awake x (by simp) t)

theorem crash_sleeps {v : Supervisor} {st : AppState} {c : ChildId}
    (alone : Alone v (.waiting "video" 0 c) st) (finished : v.state c = some (.exited false)) :
    ∃ w, SupervisorStep v (.waited 0 c false st.backoff.next) w ∧
      Alone w (.resting "video" 0) { st with backoff := st.backoff.bump.2 } ∧ w.child = v.child := by
  have step := @SupervisorStep.waited v "video" 0 0 c st false st.backoff alone.here finished
    alone.found rfl
  refine ⟨_, step, ⟨setTask_here _ _ _, ?_, alone.listed, ?_⟩, rfl⟩
  · intro t ne
    rw [← alone.others t ne]
    exact Function.update_of_ne ne _ _
  · simp [Supervisor.setTask, Supervisor.setApp]

def crashActs : List TimedAct :=
  (startActs ++ [SupervisorAct.exit 0 false, .waitLock 0 0 (some 0)]).map .act ++
    [.act (.waited 0 0 false (Duration.fromSecs 1)), .pass second, .act (.wake 0)] ++
    (spawnActs 1).map .act

theorem crashed : ∃ s, TimedRun "bus" crashActs s := by
  obtain ⟨v, run, alone, up, fresh⟩ := started
  have finished : (v.setState 0 (.exited false)).state 0 = some (.exited false) := setState_state up
  have ended : Alone (v.setState 0 (.exited false)) _ _ :=
    ⟨alone.here, alone.others, alone.listed, alone.found⟩
  have full : (v.setState 0 (.exited false)).slot 0 = some 0 := by
    simp [Supervisor.slot, ended.found]
  have waits := (run.snoc (.exit up)).snoc (.waitLock ended.here (alone_free ended rfl) full)
  have alone := alone_moves ended (.waiting "video" 0 0)
  have unborn : ((v.setState 0 (.exited false)).setTask 0 (.waiting "video" 0 0)).child 1 = none := by
    simp [Supervisor.setTask, Supervisor.setState, fresh]
  obtain ⟨u, timed, sup⟩ := timed_append (@Run.nil _ _ TimedStep (Timed.new "bus")) waits
    (by simp [startActs, readyActs, spawnActs])
  rw [← sup] at alone unborn
  have finished : u.sup.state 0 = some (.exited false) := by
    rw [sup]
    exact finished
  -- the loop goes to sleep for a second, and wakes up
  obtain ⟨w, sleeps, asleep, children⟩ := crash_sleeps alone finished
  have run := timed.snoc (.act sleeps (by simp))
  have run := run.snoc (@TimedStep.pass _ second)
  have run := run.snoc (.act (.wakeResting asleep.here) fun t same => by
    cases same
    exact Nat.le_refl _)
  rw [← children] at unborn
  obtain ⟨_, spawns, _⟩ := loop_spawns (alone_moves asleep (.resident "video")) unborn
  obtain ⟨s, run, _⟩ := timed_append run spawns (by simp [spawnActs])
  exact ⟨s, run⟩

/-- A task starts no more than one process a second, and no loop sleeps for more than five
    minutes. -/
theorem restarts_paced (run : TimedRun endpoint acts s) (t : TaskId) :
    (attempts t (fun _ => true) acts - 1) * second ≤ s.clock ∧
      ((s.sup.task t).stage = .asleep → s.wakes t ≤ s.clock + 300 * second) := by
  constructor
  · have place : Place (fun _ => second) (fun _ => true) t (attempts t (fun _ => true) acts) s := by
      refine run_history (p := fun acts s => Place (fun _ => second) (fun _ => true) t
        (attempts t (fun _ => true) acts) s) (place_start endpoint) ?_ run
      intro acts v y w before last place
      rw [attempts_snoc]
      refine place_step last place ?_
      intro x a sleep label started _ pauses
      subst label
      cases last with
      | act h => exact pause_floor before h started pauses
    have paid := place.paid
    rwa [owes, Finset.sum_const_nat (fun _ _ => rfl), Finset.card_range] at paid
  · refine run_history (p := fun _ s => (s.sup.task t).stage = .asleep →
      s.wakes t ≤ s.clock + 300 * second) ?_ ?_ run
    · intro asleep
      cases asleep
    · intro acts v y w _ last known asleep
      cases last with
      | pass =>
        have short := known asleep
        exact Nat.le_trans short (Nat.add_le_add_right (Nat.le_add_right _ _) _)
      | @act x u h rested =>
        have lap := step_lap h t
        have here : (u.task t).stage = .asleep := asleep
        rw [here] at lap
        generalize before : (v.sup.task t).stage = p at lap
        cases lap with
        | @sleep _ a st b pauses =>
          have wakes : (v.after x u).wakes t = v.clock + b.next.nanos := by
            simp [Timed.after, pauses, Backoff.bump]
          rw [wakes]
          exact Nat.add_le_add_left b.capped _
        | stay calm =>
          rw [calm_wakes calm]
          exact known before

theorem restarted_paced : ∃ s, TimedRun "bus" crashActs s ∧
    (attempts 0 (fun _ => true) crashActs - 1) * second ≤ s.clock ∧
      ((s.sup.task 0).stage = .asleep → s.wakes 0 ≤ s.clock + 300 * second) := by
  obtain ⟨s, run⟩ := crashed
  exact ⟨s, run, restarts_paced run 0⟩

/-- The pause after the start number `i` since the last clean exit, from 0. -/
def crashPause (i : Nat) : Nat := min (2 ^ i) 300 * second

/-- No process of the app exits cleanly while its loop waits for it, and the app is not dropped. -/
def Crashing (a : AppId) (s : Timed) : TimedAct → Prop
  | .act (.waited t _ true _) => (s.sup.task t).stage ≠ .started a
  | .act (.collect b) => b ≠ a
  | _ => True

structure Grown (a : AppId) (t : TaskId) (n : Nat) (s : Timed) : Prop where
  unborn : s.sup.app a = none → n = 0
  last : ∀ st, s.sup.app a = some st → crashPause (n - 1) ≤ st.backoff.next.nanos
  next : ∀ st, s.sup.app a = some st → (s.sup.task t).stage ≠ .started a →
    (s.sup.task t).stage ≠ .finished → crashPause n ≤ st.backoff.next.nanos

theorem crashPause_mono {m : Nat} (order : m ≤ n) : crashPause m ≤ crashPause n := by
  have more : 2 ^ m ≤ 2 ^ n := Nat.pow_le_pow_right (by omega) order
  exact Nat.mul_le_mul_right _ (by omega)

theorem crashPause_bump {b : Backoff} (grown : crashPause (n - 1) ≤ b.next.nanos) :
    crashPause n ≤ b.bump.2.next.nanos := by
  have cap := b.capped
  have minutes : maxBackoff.nanos = 300 * second := rfl
  rw [bump_next]
  cases n with
  | zero =>
    simp only [crashPause, Nat.zero_sub, Nat.pow_zero] at grown ⊢
    omega
  | succ n =>
    rw [Nat.add_sub_cancel] at grown
    unfold crashPause at grown ⊢
    have double : min (2 ^ (n + 1)) 300 * second ≤ min (2 ^ n) 300 * second * 2 := by
      have half : min (2 ^ (n + 1)) 300 ≤ min (2 ^ n) 300 * 2 := by omega
      calc min (2 ^ (n + 1)) 300 * second ≤ min (2 ^ n) 300 * 2 * second :=
            Nat.mul_le_mul_right _ half
        _ = min (2 ^ n) 300 * second * 2 := Nat.mul_right_comm _ _ _
    have most : min (2 ^ (n + 1)) 300 * second ≤ 300 * second :=
      Nat.mul_le_mul_right _ (Nat.min_le_right _ _)
    omega

theorem paused_issues {x : SupervisorAct} {d : TaskId} {sleep : Duration}
    (pauses : pause s.sup x = some (d, sleep)) : issues t mine (.act x) = false := by
  cases x with
  | issue => cases pauses
  | _ => rfl

/-- Only a clean exit resets the backoff. -/
theorem crash_bumps {x : SupervisorAct} {d : TaskId} {st : AppState} {b : Backoff}
    (crash : Crashing a s (.act x)) (started : (s.sup.task d).stage = .started a)
    (length : b = st.backoff ∨ b = Backoff.new ∧ ∃ c sleep, x = .waited d c true sleep) :
    b = st.backoff := by
  rcases length with same | ⟨_, c, sleep, rfl⟩
  · exact same
  · exact absurd started crash

theorem absent_issues {x : SupervisorAct} {v : Supervisor} (h : SupervisorStep s.sup x v)
    (absent : s.sup.app a = none) : issues t (· == a) (.act x) = false := by
  cases h with
  | @issue _ u b st token here found =>
    have ne : b ≠ a := by
      intro same
      rw [same, absent] at found
      cases found
    simp [issues, ne]
  | _ => rfl

theorem issues_ahead {x : SupervisorAct} {v : Supervisor} (h : SupervisorStep s.sup x v)
    (one : issues t mine (.act x) = true) : (s.sup.task t).stage = .ahead := by
  cases h with
  | issue here =>
    simp only [issues, Bool.and_eq_true, beq_iff_eq] at one
    rw [← one.1, here]
    rfl
  | _ => cases one

theorem grown_step (h : TimedStep s y s') (crash : Crashing a s y) (grown : Grown a t n s) :
    Grown a t (n + if issues t (· == a) y then 1 else 0) s' := by
  cases h with
  | pass => exact ⟨grown.unborn, grown.last, grown.next⟩
  | @act x v h rested =>
    constructor
    · intro gone
      have before : s.sup.app a = none := by
        by_contra known
        rcases app_kept h known with kept | rfl
        · exact kept gone
        · exact crash rfl
      rw [absent_issues h before, grown.unborn before]
      rfl
    · intro st' now
      cases step_backoff h now with
      | new absent fresh =>
        rw [absent_issues h absent, grown.unborn absent, fresh]
        exact Nat.le_refl _
      | @kept old _ found same =>
        rw [same]
        cases one : issues t (· == a) (.act x) with
        | true =>
          have ahead := issues_ahead h one
          exact grown.next old found (by simp [ahead]) (by simp [ahead])
        | false => exact grown.last old found
      | @bumped d old _ b found started pauses length after =>
        obtain rfl := crash_bumps crash started length
        rw [paused_issues pauses, after]
        exact Nat.le_trans (crashPause_mono (Nat.sub_le _ _)) (crashPause_bump (grown.last old found))
    · intro st' now apart busy
      cases step_backoff h now with
      | new absent fresh =>
        rw [absent_issues h absent, grown.unborn absent, fresh]
        exact Nat.le_refl _
      | @kept old _ found same =>
        have lap := step_lap h t
        generalize before : (s.sup.task t).stage = p at lap
        generalize reached : (v.task t).stage = q at lap
        have apart : q ≠ .started a := by
          rw [← reached]
          exact apart
        have earlier : p ≠ .started a → p ≠ .finished → crashPause n ≤ st'.backoff.next.nanos := by
          intro elsewhere on
          rw [same]
          exact grown.next old found (by rwa [before]) (by rwa [before])
        cases lap with
        | @issue b token =>
          have other : issues t (· == a) (.act (.issue t b token)) = false := by
            have ne : b ≠ a := by
              intro eq
              rw [eq] at apart
              exact apart rfl
            simp [issues, ne]
          rw [other]
          exact earlier (by simp) (by simp)
        | @sleep _ b st k pauses found' length after =>
          rw [paused_issues pauses]
          by_cases eq : b = a
          · subst eq
            obtain rfl := crash_bumps crash before length
            have there : v.app b = some st' := now
            rw [after, Option.some.injEq] at there
            rw [← there]
            exact crashPause_bump (grown.last st found')
          · exact earlier (by simpa using eq) (by simp)
        | wake => exact earlier (by simp) (by simp)
        | finish =>
          have on : (v.task t).stage ≠ .finished := busy
          exact absurd reached on
        | stay calm =>
          have on : (v.task t).stage ≠ .finished := busy
          rw [calm_issues calm]
          exact earlier apart (by rwa [← reached])
      | @bumped d old _ b found started pauses length after =>
        obtain rfl := crash_bumps crash started length
        rw [paused_issues pauses, after]
        exact crashPause_bump (grown.last old found)

theorem grown_start (endpoint : String) : Grown a t 0 (Timed.new endpoint) :=
  ⟨fun _ => rfl, by simp [Timed.new, Supervisor.new], by simp [Timed.new, Supervisor.new]⟩

/-- Where an app only crashes, no task has started more processes of it than pauses of 1, 2, 4
    seconds and so on up to five minutes leave room for. -/
theorem crashes_paced (run : Run (Guarded TimedStep (Crashing a)) (Timed.new endpoint) acts s)
    (t : TaskId) :
    ∑ i ∈ Finset.range (attempts t (· == a) acts - 1), min (2 ^ i) 300 * second ≤ s.clock := by
  have both : Grown a t (attempts t (· == a) acts) s ∧
      Place crashPause (· == a) t (attempts t (· == a) acts) s := by
    refine run_history (p := fun acts s => Grown a t (attempts t (· == a) acts) s ∧
      Place crashPause (· == a) t (attempts t (· == a) acts) s)
      ⟨grown_start endpoint, place_start endpoint⟩ ?_ run
    intro acts v y w _ last known
    obtain ⟨step, crash⟩ := last
    obtain ⟨grown, place⟩ := known
    rw [attempts_snoc]
    refine ⟨grown_step step crash grown, place_step step place ?_⟩
    intro x b sleep label started own pauses
    obtain rfl := beq_iff_eq.mp own
    subst label
    cases step with
    | act h =>
      obtain ⟨st, found, same | ⟨_, c, d, reset⟩⟩ := pause_length h started pauses
      · rw [same]
        exact grown.last st found
      · subst reset
        exact absurd started crash
  exact both.2.paid

theorem crashed_paced : attempts 0 (· == 0) crashActs = 2 ∧ ∃ s, TimedRun "bus" crashActs s ∧
    ∑ i ∈ Finset.range (attempts 0 (· == 0) crashActs - 1), min (2 ^ i) 300 * second ≤ s.clock := by
  obtain ⟨s, run⟩ := crashed
  have crashing : Run (Guarded TimedStep (Crashing 0)) (Timed.new "bus") crashActs s :=
    run_guarded run (by simp [crashActs, startActs, readyActs, spawnActs, Crashing])
  exact ⟨by decide, s, run, crashes_paced crashing 0⟩

end TokimoSupervisor

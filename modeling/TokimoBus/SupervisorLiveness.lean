import TokimoBus.Enabled
import TokimoBus.Fairness
import TokimoBus.SupervisorReplace

/-!
What the calls and the restart loops of the supervisor get done. They hold one child mutex at a time
and wait for nothing but a mutex or the end of a process; so if the mutexes are handed on and
processes die when they are killed, a task that does not come back is kept from it by a process that
lives for ever while somebody waits for it with the mutex locked.
-/
namespace TokimoSupervisor
open TokimoFrame LabelledRuns Fairness
variable {s s' : Supervisor} {x : SupervisorAct} {acts : List SupervisorAct} {t t' : TaskId}
  {a a' : AppId} {c c' : ChildId} {endpoint service token : String} {n m : Nat} {p q : TaskPhase}

/-- What a task does next if it neither fails nor waits for a mutex. -/
def goesOn : SupervisorAct → Option TaskId
  | .residentGet t _ | .waited t _ _ _ | .wake t | .issue t _ _ | .spawned t _ _ | .ensureGet t _
  | .running t _ _ | .absent t _ | .contains t _ | .stopGet t _ | .kill t _ | .killFailed t _
  | .killed t _ | .stopped t _ | .removed t _ | .inserted t _ _ | .loop t _ => some t
  | _ => none

def locking : SupervisorAct → Option TaskId
  | .spawnLock t _ | .waitLock t _ _ | .ensureLock t _ | .take t _ _ => some t
  | _ => none

def TaskPhase.seeks : TaskPhase → Option AppId
  | .spawnLock _ a | .waitLock _ a | .ensureLock a | .stopLock _ a => some a
  | _ => none

def TaskPhase.rank : TaskPhase → Nat
  | .unused => 0
  | .resident _ | .ensure _ | .contains _ => 1
  | .spawnLock _ _ | .ensureLock _ | .stop _ => 2
  | .ensuring _ | .stopLock _ _ => 3
  | .spawning _ _ | .stopping _ _ _ => 4
  | .starting _ _ _ | .killing _ _ _ => 5
  | .waitLock _ _ | .failing _ _ | .stopWait _ _ _ => 6
  | .waiting _ _ _ | .remove _ => 7
  | .resting _ _ | .insert _ => 8
  | .loop _ => 9
  | .done _ | .ended => 10

def TaskPhase.calls : TaskPhase → Bool
  | .ensure _ | .ensureLock _ | .ensuring _ | .spawning .ensure _ | .starting .ensure _ _
  | .done _ => true
  | p => p.changes

def TaskPhase.lap : TaskPhase → Nat
  | .waitLock _ _ => 1
  | .waiting _ _ _ => 2
  | .failing _ _ | .resting _ _ => 3
  | .resident _ => 4
  | .spawnLock _ _ => 5
  | .spawning _ _ => 6
  | .ended => 7
  | _ => 0

theorem rank_bounded (p : TaskPhase) : p.rank ≤ 10 := by
  cases p <;> simp [TaskPhase.rank]

theorem lap_bounded (p : TaskPhase) : p.lap ≤ 7 := by
  cases p <;> simp [TaskPhase.lap]

def ends : SupervisorAct → Option TaskId
  | .residentGet t none | .waitLock t _ none => some t
  | _ => none

structure Onward (x : SupervisorAct) (t : TaskId) (p q : TaskPhase) : Prop where
  rank : p.rank < q.rank ∨ ∃ service, q = .resident service
  calls : p.calls = true → q.calls = true
  loops : ∀ service, p.loops = some service → q.loops = some service ∨ ends x = some t
  laps : ∀ service, p.loops = some service → p.lap < q.lap ∨ ∃ a token, x = .issue t a token

theorem step_onward (h : SupervisorStep s x s') (t : TaskId) :
    s'.task t = s.task t ∨ Onward x t (s.task t) (s'.task t) := by
  have moved : ∀ {d : TaskId} {p q : TaskPhase}, s.task d = q → Onward x d q p →
      Function.update s.task d p t = s.task t ∨
        Onward x t (s.task t) (Function.update s.task d p t) := by
    intro d p q here onward
    by_cases eq : t = d
    · subst eq
      rw [Function.update_self, here]
      exact Or.inr onward
    · exact Or.inl (Function.update_of_ne eq _ _)
  cases h with
  | register | exit | die | hello => exact Or.inl rfl
  | collect => exact Or.inl (by simp [Supervisor.setApp])
  | @issue d u a st token here =>
    refine moved here ?_
    cases u <;> constructor <;> simp [TaskPhase.rank, TaskPhase.calls, TaskPhase.changes,
      TaskPhase.loops, Caller.loops]
  | @spawned d u a st token c here =>
    simp only [Supervisor.setTask, startChild_task]
    refine moved here ?_
    cases u <;> constructor <;> simp [Caller.succeeded, TaskPhase.rank, TaskPhase.calls,
      TaskPhase.changes, TaskPhase.loops, TaskPhase.lap, Caller.loops]
  | @inserted spec d a here =>
    refine moved here ?_
    cases spec.lifecycle <;> constructor <;> simp [TaskPhase.rank, TaskPhase.calls,
      TaskPhase.changes, TaskPhase.loops]
  | @loop service d d' here new =>
    simp only [Supervisor.setTask]
    by_cases eq : t = d
    · subst eq
      rw [Function.update_self, here]
      refine Or.inr ?_
      constructor <;> simp [TaskPhase.rank, TaskPhase.calls, TaskPhase.loops]
    · rw [Function.update_of_ne eq]
      refine moved new ?_
      constructor <;> simp [TaskPhase.rank, TaskPhase.calls, TaskPhase.changes, TaskPhase.loops]
  | stopWaitFailed here =>
    simp only [Supervisor.setTask, dropChild_task]
    refine moved here ?_
    constructor <;> simp [TaskPhase.rank, TaskPhase.calls, TaskPhase.changes, TaskPhase.loops]
  | startResident here | residentGet here | residentGone here | spawnLock here | waitLock here
  | waitNone here | waited here | waitFailed here | wakeResting here | wakeFailing here
  | spawnFailed here | ensureFailed here | ensureUp here | ensureGet here | ensureMissing here
  | ensureLock here | running here | absent here | tryWaitFailed here | change here | known here
  | unknownReplace here | unknownUnregister here | stopGet here | stopMissing here | take here
  | takeNone here | kill here | killFailed here | killWaitFailed here | killed here
  | stopped here | removedReplace here | removedUnregister here =>
    refine moved here ?_
    constructor <;> simp [TaskPhase.rank, TaskPhase.calls, TaskPhase.changes, TaskPhase.loops,
      TaskPhase.lap, Caller.loops, ends]

theorem own_moves (h : SupervisorStep s x s') (own : goesOn x = some t ∨ locking x = some t) :
    s'.task t ≠ s.task t := by
  cases h with
  | @spawned d u a st token c here =>
    rcases own with own | own <;> cases own
    rw [setTask_here, here]
    cases u <;> simp [Caller.succeeded]
  | @inserted spec d a here =>
    rcases own with own | own <;> cases own
    rw [setTask_here, here]
    cases spec.lifecycle <;> simp
  | residentGet here | residentGone here | spawnLock here | waitLock here | waitNone here
  | waited here | wakeResting here | wakeFailing here | issue here | ensureGet here
  | ensureMissing here | ensureLock here | running here | absent here | known here
  | unknownReplace here | unknownUnregister here | stopGet here | stopMissing here | take here
  | takeNone here | kill here | killFailed here | killWaitFailed here | killed here
  | stopped here | removedReplace here | removedUnregister here | loop here =>
    rcases own with own | own <;> cases own
    all_goals
      rw [setTask_here, here]
      simp
  | _ => rcases own with own | own <;> cases own

def bears : SupervisorAct → Option ChildId
  | .spawned _ _ c => some c
  | _ => none

def starts : SupervisorAct → Option TaskId
  | .startResident _ t | .ensureUp _ t | .change _ t | .loop _ t => some t
  | _ => none

theorem fresh_child (run : SupervisorRun endpoint acts s) : ∃ c, s.child c = none := by
  have gains : ∀ c v x v', SupervisorStep v x v' → v'.child c ≠ none →
      v.child c ≠ none ∨ bears x = some c := by
    intro c v x v' h now
    refine (known_or_spawned h now).imp_right fun born => ?_
    obtain ⟨t, a, rfl⟩ := born
    rfl
  obtain ⟨c, fresh⟩ := TokimoEnabled.fresh_name bears (by simp [Supervisor.new]) gains run
  exact ⟨c, not_not.mp fresh⟩

theorem fresh_app (run : SupervisorRun endpoint acts s) : ∃ a, s.app a = none := by
  have gains : ∀ a v x v', SupervisorStep v x v' → v'.app a ≠ none →
      v.app a ≠ none ∨ creates x = some a := fun _ _ _ _ h now => step_creates h now
  obtain ⟨a, fresh⟩ := TokimoEnabled.fresh_name creates (by simp [Supervisor.new]) gains run
  exact ⟨a, not_not.mp fresh⟩

theorem started_by (h : SupervisorStep s x s') (new : s.task t = .unused)
    (now : s'.task t ≠ .unused) : starts x = some t := by
  have other : ∀ {d : TaskId} {p q : TaskPhase}, s.task d = q → q ≠ .unused →
      Function.update s.task d p t = .unused := by
    intro d p q here known
    exact moved_on (P := (· = .unused)) here (fun same => absurd same known) new
  have begun : ∀ {d : TaskId} {p : TaskPhase}, Function.update s.task d p t ≠ .unused → d = t := by
    intro d p now
    by_contra ne
    rw [Function.update_of_ne (Ne.symm ne)] at now
    exact now new
  cases h with
  | startResident | ensureUp | change =>
    have same := begun now
    rw [← same]
    rfl
  | @loop service d d' here fresh =>
    by_cases eq : t = d'
    · rw [eq]
      rfl
    · have ne : t ≠ d := by
        intro same
        rw [← same, new] at here
        cases here
      simp [Supervisor.setTask, ne, eq, new] at now
  | @spawned d u a st token c here =>
    simp only [Supervisor.setTask, startChild_task] at now
    exact absurd (other here (by simp)) now
  | stopWaitFailed here =>
    simp only [Supervisor.setTask, dropChild_task] at now
    exact absurd (other here (by simp)) now
  | collect =>
    simp only [Supervisor.setApp, dropChild_task] at now
    exact absurd new now
  | register | exit | die | hello => exact absurd new now
  | residentGet here | residentGone here | spawnLock here | waitLock here | waitNone here
  | waited here | waitFailed here | wakeResting here | wakeFailing here | issue here
  | spawnFailed here | ensureFailed here | ensureGet here | ensureMissing here | ensureLock here
  | running here | absent here | tryWaitFailed here | known here | unknownReplace here
  | unknownUnregister here | stopGet here | stopMissing here | take here | takeNone here
  | kill here | killFailed here | killWaitFailed here | killed here | stopped here
  | removedReplace here | removedUnregister here | inserted here =>
    exact absurd (other here (by simp)) now

theorem fresh_task (run : SupervisorRun endpoint acts s) : ∃ t, s.task t = .unused := by
  have gains : ∀ t v x v', SupervisorStep v x v' → v'.task t ≠ .unused →
      v.task t ≠ .unused ∨ starts x = some t := by
    intro t v x v' h now
    by_cases new : v.task t = .unused
    · exact Or.inr (started_by h new now)
    · exact Or.inl new
  obtain ⟨t, fresh⟩ := TokimoEnabled.fresh_name starts (by simp [Supervisor.new]) gains run
  exact ⟨t, not_not.mp fresh⟩

theorem app_kept (h : SupervisorStep s x s') (known : s.app a ≠ none) :
    s'.app a ≠ none ∨ x = .collect a := by
  have updated : ∀ {b : AppId} {st : AppState}, Function.update s.app b (some st) a ≠ none := by
    intro b st
    by_cases eq : a = b
    · simp [eq]
    · simpa [eq] using known
  cases h with
  | register | inserted | waited | waitFailed | spawnFailed | take => exact Or.inl updated
  | spawned =>
    simp only [Supervisor.setTask, Supervisor.startChild, Supervisor.setApp, dropChild_app]
    exact Or.inl updated
  | stopWaitFailed => exact Or.inl (by simpa [Supervisor.setTask] using known)
  | @collect b =>
    by_cases eq : a = b
    · exact Or.inr (by rw [eq])
    · exact Or.inl (by simpa [Supervisor.setApp, eq] using known)
  | _ => exact Or.inl known

theorem step_arc (h : SupervisorStep s x s') (now : (s'.task t).arc = some a) :
    (s.task t).arc = some a ∨ s.Listed a := by
  have other : ∀ {d : TaskId} {p q : TaskPhase}, s.task d = q →
      (p.arc = some a → q.arc = some a) → (Function.update s.task d p t).arc = some a →
      (s.task t).arc = some a ∨ s.Listed a := by
    intro d p q here same now
    exact Or.inl (moved_from here same now)
  have found : ∀ {d : TaskId} {p : TaskPhase} {b : AppId} {service : String},
      s.apps service = some b → (p.arc = some a → b = a) →
      (Function.update s.task d p t).arc = some a → (s.task t).arc = some a ∨ s.Listed a := by
    intro d p b service listed same now
    rcases moved_to now with old | ⟨_, arc⟩
    · exact Or.inl old
    · rw [same arc] at listed
      exact Or.inr ⟨service, listed⟩
  cases h with
  | residentGet _ listed | ensureGet _ listed | stopGet _ listed =>
    exact found listed (by simp [TaskPhase.arc]) now
  | @spawned d u b st token c here =>
    simp only [Supervisor.setTask, startChild_task] at now
    refine other here ?_ now
    cases u <;> simp [Caller.succeeded, TaskPhase.arc, TaskPhase.holds]
  | @inserted spec d b here =>
    refine other here ?_ now
    cases spec.lifecycle <;> simp [TaskPhase.arc, TaskPhase.holds]
  | @loop service d d' here new =>
    simp only [Supervisor.setTask] at now
    rcases moved_to now with old | ⟨_, same⟩
    · exact other new (by simp [TaskPhase.arc, TaskPhase.holds]) old
    · cases same
  | stopWaitFailed here =>
    simp only [Supervisor.setTask, dropChild_task] at now
    exact other here (by simp [TaskPhase.arc, TaskPhase.holds]) now
  | collect =>
    simp only [Supervisor.setApp, dropChild_task] at now
    exact Or.inl now
  | register | exit | die | hello => exact Or.inl now
  | startResident here | residentGone here | spawnLock here | waitLock here | waitNone here
  | waited here | waitFailed here | wakeResting here | wakeFailing here | issue here
  | spawnFailed here | ensureFailed here | ensureUp here | ensureMissing here | ensureLock here
  | running here | absent here | tryWaitFailed here | change here | known here
  | unknownReplace here | unknownUnregister here | stopMissing here | take here | takeNone here
  | kill here | killFailed here | killWaitFailed here | killed here | stopped here
  | removedReplace here | removedUnregister here =>
    exact other here (by simp [TaskPhase.arc, TaskPhase.holds]) now

theorem arc_known (reach : SupervisorReachable endpoint s) (arc : (s.task t).arc = some a) :
    ∃ st, s.app a = some st := by
  have kept : ∀ t a, (s.task t).arc = some a → s.app a ≠ none := by
    refine reachable_invariant (p := fun s => ∀ t a, (s.task t).arc = some a → s.app a ≠ none)
      ?_ ?_ reach
    · intro t a arc
      cases arc
    · intro v x v' reach h known t a now
      have before : v.app a ≠ none := by
        rcases step_arc h now with old | ⟨service, listed⟩
        · exact known t a old
        · obtain ⟨st, found, _⟩ := listed_spec reach listed
          simp [found]
      rcases app_kept h before with after | rfl
      · exact after
      · cases h with
        | collect unused =>
          simp only [Supervisor.setApp, dropChild_task] at now
          exact absurd now (unused.2 t)
  exact Option.ne_none_iff_exists'.mp (kept t a arc)

theorem goes_on (reach : SupervisorReachable endpoint s) (begun : s.task t ≠ .unused)
    (busy : (s.task t).rank < 10) (unlocked : (s.task t).seeks = none)
    (seen : ∀ c, (s.task t).waitsFor = some c → ∃ success, s.state c = some (.exited success)) :
    Enabled SupervisorStep (fun x => goesOn x = some t) s := by
  obtain ⟨acts, run⟩ := reach
  have known : ∀ {a}, (s.task t).arc = some a → ∃ st, s.app a = some st := arc_known ⟨acts, run⟩
  cases here : s.task t with
  | unused => exact absurd here begun
  | resident service =>
    cases listed : s.apps service with
    | some a => exact ⟨_, _, rfl, .residentGet here listed⟩
    | none => exact ⟨_, _, rfl, .residentGone here listed⟩
  | failing service a => exact ⟨_, _, rfl, .wakeFailing here⟩
  | resting service a => exact ⟨_, _, rfl, .wakeResting here⟩
  | waiting service a c =>
    obtain ⟨success, finished⟩ := seen c (by rw [here]; rfl)
    obtain ⟨st, found⟩ := known (by rw [here]; rfl)
    exact ⟨_, _, rfl, .waited here finished found rfl⟩
  | spawning u a =>
    obtain ⟨st, found⟩ := known (by rw [here]; rfl)
    exact ⟨.issue t a "", _, rfl, .issue here found⟩
  | starting u a token =>
    obtain ⟨st, found⟩ := known (by rw [here]; rfl)
    obtain ⟨c, new⟩ := fresh_child run
    exact ⟨_, _, rfl, .spawned here found new⟩
  | ensure service =>
    cases listed : s.apps service with
    | some a => exact ⟨_, _, rfl, .ensureGet here listed⟩
    | none => exact ⟨_, _, rfl, .ensureMissing here listed⟩
  | ensuring a =>
    by_cases down : ∀ c, s.slot a = some c → ∃ success, s.state c = some (.exited success)
    · exact ⟨_, _, rfl, .absent here down⟩
    · push Not at down
      obtain ⟨c, full, up⟩ := down
      exact ⟨_, _, rfl, .running here full up⟩
  | contains p =>
    cases listed : s.apps p.service with
    | some a => exact ⟨_, _, rfl, .known here listed⟩
    | none =>
      cases p with
      | replace spec => exact ⟨_, _, rfl, .unknownReplace here listed⟩
      | unregister service => exact ⟨_, _, rfl, .unknownUnregister here listed⟩
  | stop p =>
    cases listed : s.apps p.service with
    | some a => exact ⟨_, _, rfl, .stopGet here listed⟩
    | none => exact ⟨_, _, rfl, .stopMissing here listed⟩
  | stopping p a c => exact ⟨_, _, rfl, .killFailed here⟩
  | killing p a c =>
    obtain ⟨success, finished⟩ := seen c (by rw [here]; rfl)
    exact ⟨_, _, rfl, .killed here finished⟩
  | stopWait p a c =>
    obtain ⟨success, finished⟩ := seen c (by rw [here]; rfl)
    exact ⟨_, _, rfl, .stopped here finished⟩
  | remove p =>
    cases p with
    | replace spec => exact ⟨_, _, rfl, .removedReplace here⟩
    | unregister service => exact ⟨_, _, rfl, .removedUnregister here⟩
  | insert spec =>
    obtain ⟨a, new⟩ := fresh_app run
    exact ⟨_, _, rfl, .inserted here new⟩
  | loop service =>
    obtain ⟨d, new⟩ := fresh_task run
    exact ⟨_, _, rfl, .loop here new⟩
  | done | ended => simp [here, TaskPhase.rank] at busy
  | spawnLock | waitLock | ensureLock | stopLock => simp [here, TaskPhase.seeks] at unlocked

theorem gets_lock (free : s.Free a) (seeks : (s.task t).seeks = some a) :
    Enabled SupervisorStep (fun x => locking x = some t) s := by
  cases here : s.task t with
  | spawnLock service b =>
    rw [here] at seeks
    cases seeks
    exact ⟨_, _, rfl, .spawnLock here free⟩
  | ensureLock b =>
    rw [here] at seeks
    cases seeks
    exact ⟨_, _, rfl, .ensureLock here free⟩
  | waitLock service b =>
    rw [here] at seeks
    cases seeks
    cases found : s.slot a with
    | some c => exact ⟨_, _, rfl, .waitLock here free found⟩
    | none => exact ⟨_, _, rfl, .waitNone here free found⟩
  | stopLock p b =>
    rw [here] at seeks
    cases seeks
    cases found : s.slot a with
    | some c =>
      obtain ⟨st, known, full⟩ := Option.bind_eq_some_iff.mp found
      exact ⟨_, _, rfl, .take here free known full⟩
    | none => exact ⟨_, _, rfl, .takeNone here free found⟩
  | _ => simp [here, TaskPhase.seeks] at seeks

/-- The tasks are scheduled again and again, a mutex goes to whoever waits for it, and processes die
    when they are killed. -/
structure Scheduled (e : Execution SupervisorStep (Supervisor.new endpoint)) : Prop where
  tasks : ∀ t, e.Fair (fun x => goesOn x = some t)
  mutexes : ∀ t, e.StronglyFair (fun x => locking x = some t)
  dies : ∀ c, e.Fair (fun x => x = .die c)

def Watches (s : Supervisor) (t : TaskId) (a : AppId) (c : ChildId) : Prop :=
  (s.task t).holds = some a ∧ (s.task t).waitsFor = some c ∧ s.Alive c

variable {e : Execution SupervisorStep (Supervisor.new endpoint)}

theorem die_exits (h : SupervisorStep s (.die c) s') : s'.state c = some (.exited false) := by
  cases h with
  | die signalled => exact setState_state signalled

theorem exit_seen (scheduled : Scheduled e) (finished : Over c (e.state n)) :
    ∃ m, n ≤ m ∧ ∃ success, ∀ l, m ≤ l → (e.state l).state c = some (.exited success) := by
  have known : ∀ m, n ≤ m → Over c (e.state m) := fun m later =>
    e.stays (over_stable endpoint c) later finished
  have exited : ∃ m, n ≤ m ∧ ∃ success, (e.state m).state c = some (.exited success) := by
    by_contra never
    push Not at never
    have signalled : ∀ m, n ≤ m → (e.state m).state c = some .killed := by
      intro m later
      obtain ⟨born, ended⟩ := known m later
      obtain ⟨ch, found⟩ := Option.ne_none_iff_exists'.mp born
      have state : (e.state m).state c = some ch.state := by simp [Supervisor.state, found]
      cases at_end : ch.state with
      | alive => exact absurd (by rw [Supervisor.Alive, state, at_end]) ended
      | killed => rw [state, at_end]
      | exited success => exact absurd (by rw [state, at_end]) (never m later success)
    obtain ⟨m, x, later, label, rfl⟩ := scheduled.dies c n fun m later =>
      ⟨_, _, rfl, .die (signalled m later)⟩
    have moves := e.moves m
    rw [label] at moves
    have after := signalled (m + 1) (Nat.le_succ_of_le later)
    rw [die_exits moves] at after
    cases after
  obtain ⟨m, later, success, finished⟩ := exited
  refine ⟨m, later, success, fun l after => ?_⟩
  exact e.stays (fun _ _ _ _ h => exited_step h) after finished

theorem waits_known (reach : SupervisorReachable endpoint s) (waits : (s.task t).waitsFor = some c) :
    s.child c ≠ none := by
  have sound := sound reach
  cases here : s.task t with
  | waiting service a d =>
    rw [here] at waits
    cases waits
    exact sound.known (.inl a) c (sound.view t a (some c) (by rw [here]; rfl))
  | killing p a d | stopWait p a d =>
    rw [here] at waits
    cases waits
    exact sound.known (.inr t) c (by simp [Supervisor.owns, here, TaskPhase.taken])
  | _ => simp [here, TaskPhase.waitsFor] at waits

theorem waits_holds (waits : p.waitsFor = some c) : ∃ a, p.holds = some a := by
  cases p <;> simp_all [TaskPhase.waitsFor, TaskPhase.holds]

theorem holds_busy (holds : p.holds = some a) :
    p ≠ .unused ∧ p.rank < 10 ∧ p.seeks = none := by
  cases p <;> simp_all [TaskPhase.holds, TaskPhase.rank, TaskPhase.seeks]

theorem seeks_arc (seeks : p.seeks = some a) : p.arc = some a := by
  cases p <;> simp_all [TaskPhase.seeks, TaskPhase.arc]

theorem not_still (scheduled : Scheduled e) (still : ∀ m, n ≤ m → (e.state m).task t = q)
    (begun : q ≠ .unused) (busy : q.rank < 10) (unlocked : q.seeks = none)
    (seen : ∀ m c, n ≤ m → q.waitsFor = some c →
      ∃ success, (e.state m).state c = some (.exited success)) : False := by
  obtain ⟨m, x, later, label, own⟩ := scheduled.tasks t n fun m later => by
    have here := still m later
    refine goes_on (e.reachable m) (by rwa [here]) (by rwa [here]) (by rwa [here]) ?_
    intro c waits
    rw [here] at waits
    exact seen m c later waits
  have moves := e.moves m
  rw [label] at moves
  have apart := own_moves moves (Or.inl own)
  rw [still m later, still (m + 1) (Nat.le_succ_of_le later)] at apart
  exact apart rfl

theorem unlocked_leaves (scheduled : Scheduled e) (here : (e.state n).task t = q)
    (begun : q ≠ .unused) (busy : q.rank < 10) (unlocked : q.seeks = none) :
    (∃ m, n ≤ m ∧ (e.state m).task t = q ∧ (e.state (m + 1)).task t ≠ q) ∨
      ∃ a c, ∀ m, n ≤ m → Watches (e.state m) t a c := by
  refine or_iff_not_imp_left.mpr fun never => ?_
  push Not at never
  have still : ∀ m, n ≤ m → (e.state m).task t = q :=
    e.lasts (p := fun s => s.task t = q) here never
  cases waits : q.waitsFor with
  | none =>
    refine (not_still scheduled still begun busy unlocked ?_).elim
    intro m c _ some
    rw [waits] at some
    cases some
  | some c =>
    obtain ⟨a, holds⟩ := waits_holds waits
    refine ⟨a, c, fun m later => ⟨by rw [still m later, holds], by rw [still m later, waits], ?_⟩⟩
    by_contra dead
    have born := waits_known (e.reachable m) (by rw [still m later, waits])
    obtain ⟨l, after, success, finished⟩ := exit_seen scheduled ⟨born, dead⟩
    refine not_still scheduled (fun m order => still m (by omega)) begun busy unlocked ?_ (n := l)
    intro m d order some
    rw [waits] at some
    cases some
    exact ⟨success, finished m order⟩

theorem released_free (sound : Sound s) (h : SupervisorStep s x s')
    (holds : (s.task t).holds = some a) (gone : (s'.task t).holds ≠ some a) : s'.Free a := by
  intro d now
  rcases (step_shift h d).holds a now with old | ⟨_, free⟩
  · obtain rfl := sound.mutex d t a old holds
    exact gone now
  · exact free t holds

/-- A mutex is released at some point, unless its holder waits for ever for a process that runs. -/
theorem mutex_released (scheduled : Scheduled e) (holds : ((e.state n).task t).holds = some a) :
    (∃ m, n ≤ m ∧ (e.state m).Free a) ∨
      ∃ m c, n ≤ m ∧ ∀ l, m ≤ l → Watches (e.state l) t a c := by
  generalize left : 10 - ((e.state n).task t).rank = d
  induction d using Nat.strongRecOn generalizing n with
  | ind d ih =>
    obtain ⟨begun, busy, unlocked⟩ := holds_busy holds
    rcases unlocked_leaves scheduled rfl begun busy unlocked with ⟨m, later, there, gone⟩ |
      ⟨b, c, watches⟩
    · rw [← there] at gone holds left
      obtain ⟨x, _, one⟩ := e.moved fun same => gone (by rw [same])
      by_cases kept : ((e.state (m + 1)).task t).holds = some a
      · rcases step_onward one t with same | ⟨up | ⟨service, resident⟩, _, _, _⟩
        · exact absurd same gone
        · have top := rank_bounded ((e.state (m + 1)).task t)
          refine (ih _ (by omega) kept rfl).imp ?_ ?_
          · intro found
            obtain ⟨l, after, free⟩ := found
            exact ⟨l, by omega, free⟩
          · intro watched
            obtain ⟨l, c, after, watches⟩ := watched
            exact ⟨l, c, by omega, watches⟩
        · rw [resident] at kept
          cases kept
      · exact Or.inl ⟨m + 1, by omega, released_free (sound (e.reachable m)) one holds kept⟩
    · have same := (watches n (Nat.le_refl n)).1
      rw [holds] at same
      cases same
      exact Or.inr ⟨n, c, Nat.le_refl n, watches⟩

/-- Whoever waits for a mutex gets it, unless its holder waits for ever for a process that runs. -/
theorem seeking_leaves (scheduled : Scheduled e) (here : (e.state n).task t = q)
    (seeks : q.seeks = some a) :
    (∃ m, n ≤ m ∧ (e.state m).task t = q ∧ (e.state (m + 1)).task t ≠ q) ∨
      ∃ m t' c, n ≤ m ∧ ∀ l, m ≤ l → (e.state l).task t = q ∧ Watches (e.state l) t' a c := by
  refine or_iff_not_imp_left.mpr fun never => ?_
  push Not at never
  have still : ∀ m, n ≤ m → (e.state m).task t = q :=
    e.lasts (p := fun s => s.task t = q) here never
  by_contra unwatched
  have again : ∀ m, n ≤ m → ∃ l, m ≤ l ∧ (e.state l).Free a := by
    intro m later
    by_cases free : (e.state m).Free a
    · exact ⟨m, Nat.le_refl m, free⟩
    · simp only [Supervisor.Free, not_forall, not_not] at free
      obtain ⟨d, holds⟩ := free
      rcases mutex_released scheduled holds with free | ⟨k, c, after, watches⟩
      · exact free
      · refine absurd ⟨k, d, c, Nat.le_trans later after, fun l order => ?_⟩ unwatched
        exact ⟨still l (by omega), watches l order⟩
  obtain ⟨m, x, later, label, own⟩ := scheduled.mutexes t n fun m later => by
    obtain ⟨l, after, free⟩ := again m later
    exact ⟨l, after, gets_lock free (by rw [still l (by omega), seeks])⟩
  have moves := e.moves m
  rw [label] at moves
  have apart := own_moves moves (Or.inr own)
  rw [still m later, still (m + 1) (Nat.le_succ_of_le later)] at apart
  exact apart rfl

/-- Nothing is left to do but to wait for processes that run. -/
structure Resting (s : Supervisor) : Prop where
  tasks : ∀ t, s.task t = .unused ∨ (∃ result, s.task t = .done result) ∨
    ∃ service a c, s.task t = .waiting service a c ∧ s.Alive c
  children : ∀ c, s.child c ≠ none → s.Alive c

theorem resting_idle (resting : Resting s) (h : SupervisorStep s x s') :
    goesOn x = none ∧ locking x = none ∧ ∀ c, x ≠ .die c := by
  have apart : ∀ {d : TaskId} {q : TaskPhase}, s.task d = q → q ≠ .unused → (∀ r, q ≠ .done r) →
      (∀ service a c, q ≠ .waiting service a c) → False := by
    intro d q here begun done waits
    rcases resting.tasks d with unused | ⟨r, result⟩ | ⟨service, a, c, waiting, _⟩
    · exact begun (here.symm.trans unused)
    · exact done r (here.symm.trans result)
    · exact waits service a c (here.symm.trans waiting)
  cases h with
  | register | startResident | ensureUp | change | waitFailed | spawnFailed | ensureFailed
  | tryWaitFailed | stopWaitFailed | exit | hello | collect =>
    simp [goesOn, locking]
  | @die c signalled =>
    have born : s.child c ≠ none := fun none => by simp [Supervisor.state, none] at signalled
    have up := resting.children c born
    rw [Supervisor.Alive, signalled] at up
    cases up
  | @waited service d a c st success b here finished =>
    have born : s.child c ≠ none := fun none => by simp [Supervisor.state, none] at finished
    have up := resting.children c born
    rw [Supervisor.Alive, finished] at up
    cases up
  | residentGet here | residentGone here | spawnLock here | waitLock here | waitNone here
  | wakeResting here | wakeFailing here | issue here | spawned here | ensureGet here
  | ensureMissing here | ensureLock here | running here | absent here | known here
  | unknownReplace here | unknownUnregister here | stopGet here | stopMissing here | take here
  | takeNone here | kill here | killFailed here | killWaitFailed here | killed here
  | stopped here | removedReplace here | removedUnregister here | inserted here | loop here =>
    exact (apart here (by simp) (by simp) (by simp)).elim

theorem resting_scheduled (rests : ∀ m, n ≤ m → e.state m = s ∧ e.acts m = acts)
    (resting : Resting s) : Scheduled e where
  tasks := by
    intro t
    refine rest_fair e rests ?_
    intro enabled
    obtain ⟨x, s', own, h⟩ := enabled
    cases (resting_idle resting h).1.symm.trans own
  mutexes := by
    intro t
    refine rest_strongly_fair e rests ?_
    intro enabled
    obtain ⟨x, s', own, h⟩ := enabled
    cases (resting_idle resting h).2.1.symm.trans own
  dies := by
    intro c
    refine rest_fair e rests ?_
    intro enabled
    obtain ⟨x, s', own, h⟩ := enabled
    exact (resting_idle resting h).2.2 c own

theorem all_alive (run : SupervisorRun endpoint acts s) (up : s.Alive c)
    (one : ∀ x ∈ acts, ∀ d, bears x = some d → d = c) : ∀ d, s.child d ≠ none → s.Alive d := by
  intro d born
  obtain ⟨x, mem, bore⟩ := event_of_gained (fun x => bears x = some d)
    (p := fun s => s.child d ≠ none) (by simp [Supervisor.new]) (fun v x v' h now => by
      refine (known_or_spawned h now).imp_right fun spawned => ?_
      obtain ⟨t, a, rfl⟩ := spawned
      rfl) run born
  rwa [one x mem d bore]

/-- From some time on the mutex of the app that the task is at stays locked by somebody who waits
    for a process that never ends. -/
def Blocked (e : Execution SupervisorStep (Supervisor.new endpoint)) (t : TaskId) (n : Nat) : Prop :=
  ∃ m t' a c, n ≤ m ∧ ∀ l, m ≤ l → ((e.state l).task t).arc = some a ∧ Watches (e.state l) t' a c

theorem blocked_before (order : m ≤ n) (blocked : Blocked e t n) : Blocked e t m := by
  obtain ⟨l, d, a, c, later, watched⟩ := blocked
  exact ⟨l, d, a, c, Nat.le_trans order later, watched⟩

theorem goes_further (scheduled : Scheduled e) (begun : (e.state n).task t ≠ .unused)
    (busy : ((e.state n).task t).rank < 10) :
    (∃ m x, n ≤ m ∧ (e.state m).task t = (e.state n).task t ∧ e.label m = some x ∧
      Onward x t ((e.state n).task t) ((e.state (m + 1)).task t)) ∨ Blocked e t n := by
  have further : ∀ m, n ≤ m → (e.state m).task t = (e.state n).task t →
      (e.state (m + 1)).task t ≠ (e.state n).task t →
      ∃ m x, n ≤ m ∧ (e.state m).task t = (e.state n).task t ∧ e.label m = some x ∧
        Onward x t ((e.state n).task t) ((e.state (m + 1)).task t) := by
    intro m later there gone
    rw [← there] at gone ⊢
    obtain ⟨x, label, one⟩ := e.moved fun same => gone (by rw [same])
    exact ⟨m, x, later, rfl, label, (step_onward one t).resolve_left gone⟩
  cases seeks : ((e.state n).task t).seeks with
  | none =>
    rcases unlocked_leaves scheduled rfl begun busy seeks with ⟨m, later, there, gone⟩ |
      ⟨a, c, watches⟩
    · exact Or.inl (further m later there gone)
    · exact Or.inr ⟨n, t, a, c, Nat.le_refl n,
        fun l later => ⟨holds_arc (watches l later).1, watches l later⟩⟩
  | some a =>
    rcases seeking_leaves scheduled rfl seeks with ⟨m, later, there, gone⟩ |
      ⟨m, d, c, later, watched⟩
    · exact Or.inl (further m later there gone)
    · refine Or.inr ⟨m, d, a, c, later, fun l after => ?_⟩
      obtain ⟨there, watches⟩ := watched l after
      exact ⟨by rw [there, seeks_arc seeks], watches⟩

theorem presses_on {P : TaskPhase → Prop} {goal : Nat → Prop} {measure : TaskPhase → Nat}
    {bound : Nat} (scheduled : Scheduled e) (busy : ∀ p, P p → p ≠ .unused ∧ p.rank < 10)
    (bounded : ∀ p, measure p ≤ bound)
    (climbs : ∀ m x q, e.label m = some x → (e.state (m + 1)).task t = q →
      P ((e.state m).task t) → Onward x t ((e.state m).task t) q →
      goal m ∨ P q ∧ measure ((e.state m).task t) < measure q)
    (now : P ((e.state n).task t)) : (∃ m, n ≤ m ∧ goal m) ∨ Blocked e t n := by
  generalize left : bound - measure ((e.state n).task t) = d
  induction d using Nat.strongRecOn generalizing n with
  | ind d ih =>
    obtain ⟨begun, going⟩ := busy _ now
    rcases goes_further scheduled begun going with ⟨m, x, later, there, label, onward⟩ | blocked
    · rw [← there] at now onward left
      rcases climbs m x _ label rfl now onward with reached | ⟨still, up⟩
      · exact Or.inl ⟨m, later, reached⟩
      · have top := bounded ((e.state (m + 1)).task t)
        refine (ih _ (by omega) still rfl).imp ?_ (blocked_before (by omega))
        intro found
        obtain ⟨l, after, reached⟩ := found
        exact ⟨l, by omega, reached⟩
    · exact Or.inr blocked

theorem calls_busy (calls : p.calls = true) : p ≠ .unused ∧ (p.rank < 10 ∨ ∃ r, p = .done r) := by
  cases p <;> simp_all [TaskPhase.calls, TaskPhase.changes, TaskPhase.rank]

theorem loops_busy (loops : p.loops = some service) : p ≠ .unused ∧ p.rank < 10 := by
  cases p <;> simp_all [TaskPhase.loops, TaskPhase.rank]

/-- Every call comes back, unless it is blocked for ever: `ensure_up`, `register_or_replace` and
    `unregister` wait for nobody but a task that waits, with the mutex of the same app locked, for a
    process that runs. -/
theorem calls_return (scheduled : Scheduled e) (calls : ((e.state n).task t).calls = true) :
    (∃ m result, n ≤ m ∧ (e.state m).task t = .done result) ∨ Blocked e t n := by
  obtain ⟨_, busy | ⟨result, here⟩⟩ := calls_busy calls
  swap
  · exact Or.inl ⟨n, result, Nat.le_refl n, here⟩
  have returns := @presses_on t endpoint n e (fun p => p.calls = true ∧ p.rank < 10)
    (fun m => ∃ result, (e.state (m + 1)).task t = .done result) TaskPhase.rank 10 scheduled
    (fun p calling => ⟨(calls_busy calling.1).1, calling.2⟩) rank_bounded ?_ ⟨calls, busy⟩
  · refine returns.imp_left fun returned => ?_
    obtain ⟨m, later, result, done⟩ := returned
    exact ⟨m + 1, result, by omega, done⟩
  · intro m x q _ there calling onward
    have still := onward.calls calling.1
    obtain ⟨_, on | ⟨result, done⟩⟩ := calls_busy still
    · rcases onward.rank with up | ⟨service, resident⟩
      · exact Or.inr ⟨⟨still, on⟩, up⟩
      · simp [resident, TaskPhase.calls, TaskPhase.changes] at still
    · exact Or.inl ⟨result, there.trans done⟩

theorem ensured_returns : ∃ e : Execution SupervisorStep (Supervisor.new "bus"), Scheduled e ∧
    ((e.state 2).task 1).calls = true ∧
      ((∃ m result, 2 ≤ m ∧ (e.state m).task 1 = .done result) ∨ Blocked e 1 2) := by
  obtain ⟨s, run, unused, done, _, _, up⟩ := ensured
  have run : SupervisorRun "bus" ([.register videoSpec 0, .ensureUp "video" 1] ++
    [.ensureGet 1 (some 0), .ensureLock 1 0, .absent 1 0, .issue 1 0 "token", .spawned 1 0 0]) s :=
    guarded_run run
  have resting : Resting s := by
    refine ⟨fun t => ?_, all_alive run up (by simp [bears])⟩
    by_cases eq : t = 1
    · exact Or.inr (Or.inl ⟨_, by rw [eq, done]⟩)
    · exact Or.inl (unused t eq)
  obtain ⟨v, first, rest⟩ := run_split run
  have called : (v.task 1).calls = true := by
    have two : SupervisorRun "bus" ([.register videoSpec 0] ++ [.ensureUp "video" 1]) v := first
    obtain ⟨u, _, one⟩ := run_snoc_inv two
    cases one with
    | ensureUp => rw [setTask_here]; rfl
  obtain ⟨e, here, _, rests⟩ := run_execution first rest
  have scheduled := resting_scheduled rests resting
  have calls : ((e.state 2).task 1).calls = true := by
    rw [show e.state 2 = v from here, called]
  exact ⟨e, scheduled, calls, calls_return scheduled calls⟩

theorem issue_own (reach : SupervisorReachable endpoint s) (h : SupervisorStep s (.issue t a token) s')
    (looping : (s.task t).loops = some service) :
    ∃ st, s.app a = some st ∧ st.spec.service = service := by
  cases h with
  | @issue _ u _ _ _ here =>
    cases u with
    | resident name => exact driven_spec reach looping (by rw [here]; rfl)
    | ensure =>
      rw [here] at looping
      cases looping

/-- A restart loop tries to start a process again and again, until it finds its service gone or its
    slot emptied, or is blocked for ever. -/
theorem loops_retry (scheduled : Scheduled e)
    (loops : ((e.state n).task t).loops = some service) :
    (∃ m a token st, n ≤ m ∧ e.label m = some (.issue t a token) ∧ (e.state m).app a = some st ∧
      st.spec.service = service) ∨
      (∃ m x, n ≤ m ∧ e.label m = some x ∧ ends x = some t) ∨ Blocked e t n := by
  have turns := @presses_on t endpoint n e (fun p => p.loops = some service)
    (fun m => ((e.state m).task t).loops = some service ∧
      ∃ x, e.label m = some x ∧ ((∃ a token, x = .issue t a token) ∨ ends x = some t))
    TaskPhase.lap 7 scheduled (fun p => loops_busy) lap_bounded ?_ loops
  · rcases turns with ⟨m, later, looping, x, label, ⟨a, token, rfl⟩ | ended⟩ | blocked
    · have one := e.moves m
      rw [label] at one
      obtain ⟨st, found, named⟩ := issue_own (e.reachable m) one looping
      exact Or.inl ⟨m, a, token, st, later, label, found, named⟩
    · exact Or.inr (Or.inl ⟨m, x, later, label, ended⟩)
    · exact Or.inr (Or.inr blocked)
  · intro m x q label _ looping onward
    rcases onward.laps service looping with up | issued
    · rcases onward.loops service looping with still | ended
      · exact Or.inr ⟨still, up⟩
      · exact Or.inl ⟨looping, x, label, Or.inr ended⟩
    · exact Or.inl ⟨looping, x, label, Or.inl issued⟩

theorem started_retries : ∃ e : Execution SupervisorStep (Supervisor.new "bus"), Scheduled e ∧
    ((e.state 2).task 0).loops = some "video" ∧
      ((∃ m a token st, 2 ≤ m ∧ e.label m = some (.issue 0 a token) ∧
        (e.state m).app a = some st ∧ st.spec.service = "video") ∨
        (∃ m x, 2 ≤ m ∧ e.label m = some x ∧ ends x = some 0) ∨ Blocked e 0 2) := by
  obtain ⟨s, run, alone, up, _⟩ := started
  have full : s.slot 0 = some 0 := by simp [Supervisor.slot, alone.found]
  have run := run.snoc (.waitLock alone.here (alone_free alone rfl) full)
  have waiting := alone_moves alone (.waiting "video" 0 0)
  have resting : Resting (s.setTask 0 (.waiting "video" 0 0)) := by
    refine ⟨fun t => ?_, all_alive run up (by simp [startActs, readyActs, spawnActs, bears])⟩
    by_cases eq : t = 0
    · exact Or.inr (Or.inr ⟨"video", 0, 0, by rw [eq, waiting.here], up⟩)
    · exact Or.inl (waiting.others t eq)
  have parts : startActs ++ [SupervisorAct.waitLock 0 0 (some 0)] =
      [SupervisorAct.register videoSpec 0, .startResident "video" 0] ++
        (spawnActs 0 ++ [.waitLock 0 0 (some 0)]) := rfl
  rw [parts] at run
  obtain ⟨v, first, rest⟩ := run_split run
  have begun : (v.task 0).loops = some "video" := by
    have two : SupervisorRun "bus" ([.register videoSpec 0] ++ [.startResident "video" 0]) v :=
      first
    obtain ⟨u, _, one⟩ := run_snoc_inv two
    cases one with
    | startResident => rw [setTask_here]; rfl
  obtain ⟨e, here, _, rests⟩ := run_execution first rest
  have scheduled := resting_scheduled rests resting
  have loops : ((e.state 2).task 0).loops = some "video" := by
    rw [show e.state 2 = v from here, begun]
  exact ⟨e, scheduled, loops, loops_retry scheduled loops⟩

end TokimoSupervisor

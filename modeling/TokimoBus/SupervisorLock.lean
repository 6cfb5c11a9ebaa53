import TokimoBus.SupervisorFacts

/-!
Who may hold an app's child mutex while the app runs. `run_resident` keeps the guard
through `c.wait()`, and `stop_service` through the `child.wait()` after a kill that
failed; everything else lets go of it without the help of the child.
-/
namespace TokimoSupervisor
open TokimoFrame LabelledRuns
variable {s s' : Supervisor} {x : SupervisorAct} {acts : List SupervisorAct} {t t' : TaskId}
  {a a' : AppId} {c c' : ChildId} {endpoint service token : String} {u : Caller}

def Belongs (s : Supervisor) (a : AppId) (c : ChildId) : Prop :=
  s.slot a = some c ∨ ∃ t, (s.task t).taken = some c ∧ (s.task t).holds = some a

def Frees (t : TaskId) (c : ChildId) : SupervisorAct → Prop
  | .exit c' _ => c' = c
  | .waitFailed t' _ => t' = t
  | _ => False

/-- Task `t` keeps the child mutex for as long as the child does not exit by itself. -/
def HoldsUntilExit (s : Supervisor) (t : TaskId) (a : AppId) (c : ChildId) : Prop :=
  ∀ acts s', Run SupervisorStep s acts s' → (∀ x ∈ acts, ¬ Frees t c x) →
    (s'.task t).holds = some a

def Quiet : SupervisorAct → Prop
  | .exit _ _ | .waitFailed _ _ => False
  | _ => True

inductive Ensures (s : Supervisor) (a : AppId) : TaskPhase → Prop where
  | get {service : String} (listed : s.apps service = some a) : Ensures s a (.ensure service)
  | lock : Ensures s a (.ensureLock a)
  | look : Ensures s a (.ensuring a)

inductive Stops (s : Supervisor) (a : AppId) : TaskPhase → Prop where
  | contains {p : Purpose} (listed : s.apps p.service = some a) : Stops s a (.contains p)
  | get {p : Purpose} (listed : s.apps p.service = some a) : Stops s a (.stop p)
  | lock {p : Purpose} : Stops s a (.stopLock p a)

/-- What an `ensure_up` does that finds the child running: it returns, and nothing else. Where
    `try_wait` itself fails it returns that error. -/
def Returns (t : TaskId) (a : AppId) (c : ChildId) (x : SupervisorAct) (p : TaskPhase) : Prop :=
  x = .running t a c ∧ p = .done (.ok ()) ∨
    ∃ message, x = .tryWaitFailed t a message ∧ p = .done (.error (.io message))

/-- The condition under which nobody waits for a running child with the mutex locked. -/
def Clear (s : Supervisor) : SupervisorAct → Prop
  | .waitLock _ _ (some c) => ¬ s.Alive c
  | .killFailed _ c => ¬ s.Alive c
  | _ => True

/-- The supervisor can act on every app that runs: its mutex is not kept until the child exits by
    itself, each `ensure_up` of it can return and does nothing else, and each `stop_service` can
    get to its kill and does nothing else. -/
structure CanAct (s : Supervisor) : Prop where
  released : ∀ t a c, Belongs s a c → s.Alive c → (s.task t).holds = some a →
    ¬ HoldsUntilExit s t a c
  ensured : ∀ service t a c, s.apps service = some a → s.slot a = some c → s.Alive c →
    s.task t = .unused → ∃ acts s', Run SupervisorStep s acts s' ∧ (∀ x ∈ acts, Quiet x) ∧
      .ensureUp service t ∈ acts ∧ s'.task t = .done (.ok ()) ∧ s'.slot a = some c ∧ s'.Alive c
  returns : ∀ t a c, s.slot a = some c → s.Alive c → Ensures s a (s.task t) →
    ∃ acts s', Run SupervisorStep s acts s' ∧ (∀ x ∈ acts, Quiet x) ∧
      s'.task t = .done (.ok ()) ∧ s'.slot a = some c ∧ s'.Alive c
  untouched : ∀ t a c x s', s.slot a = some c → s.Alive c → Ensures s a (s.task t) →
    SupervisorStep s x s' → s'.task t ≠ s.task t → s' = s.setTask t (s'.task t) ∧
      (Ensures s' a (s'.task t) ∨ Returns t a c x (s'.task t))
  stopped : ∀ p t a c, s.apps p.service = some a → s.slot a = some c → s.Alive c →
    s.task t = .unused → ∃ acts s', Run SupervisorStep s acts s' ∧ (∀ x ∈ acts, Quiet x) ∧
      .change p t ∈ acts ∧ .kill t c ∈ acts
  reaches : ∀ t a c, s.slot a = some c → s.Alive c → Stops s a (s.task t) →
    ∃ acts s', Run SupervisorStep s acts s' ∧ (∀ x ∈ acts, Quiet x) ∧ .kill t c ∈ acts
  takes : ∀ t a c x s', s.slot a = some c → s.Alive c → Stops s a (s.task t) →
    SupervisorStep s x s' → s'.task t ≠ s.task t →
      Stops s' a (s'.task t) ∨ x = .take t a (some c) ∧ (s'.task t).taken = some c ∧ s'.Alive c
  kills : ∀ p t a c, s.task t = .stopping p a c → s.Alive c →
    (∃ s', SupervisorStep s (.kill t c) s') ∧ ∀ x s', SupervisorStep s x s' →
      s'.task t ≠ s.task t → Clear s x → x = .kill t c

def Idle (s : Supervisor) : Prop := ∀ t c, (s.task t).waitsFor = some c → Over c s

theorem kill_over (h : SupervisorStep s (.kill t c) s') : Over c s' := by
  cases h with
  | kill here up =>
    unfold Supervisor.Alive Supervisor.state at up
    cases found : s.child c with
    | none => simp [found] at up
    | some p => simp [Over, Supervisor.Alive, Supervisor.state, Supervisor.setTask,
        Supervisor.setState, found]

theorem waitLock_found (h : SupervisorStep s (.waitLock t a (some c)) s') :
    s.slot a = some c := by
  cases h with
  | waitLock _ _ found => exact found

theorem killFailed_taken (h : SupervisorStep s (.killFailed t c) s') :
    (s.task t).taken = some c := by
  cases h with
  | killFailed here | killWaitFailed here => simp [here, TaskPhase.taken]

theorem idle_step (reach : SupervisorReachable endpoint s) (h : SupervisorStep s x s')
    (clear : Clear s x) (idle : Idle s) : Idle s' := by
  have sound := sound reach
  intro t c now
  rcases (step_shift h t).waits c now with old | ⟨a, rfl⟩ | rfl | rfl
  · exact over_stable endpoint c s x s' reach h (idle t c old)
  · have known := sound.known (.inl a) c (waitLock_found h)
    exact over_stable endpoint c s _ s' reach h ⟨known, clear⟩
  · exact kill_over h
  · have known := sound.known (.inr t) c (killFailed_taken h)
    exact over_stable endpoint c s _ s' reach h ⟨known, clear⟩

structure Untouched (t : TaskId) (a : AppId) (c : ChildId) (s s' : Supervisor) : Prop where
  others : ∀ t', t' ≠ t → s'.task t' = s.task t'
  apps : s'.apps = s.apps
  full : s'.slot a = some c
  up : s'.Alive c

/-- A way for task `t` to let go of the mutex while child `c` goes on running. -/
def Releases (s : Supervisor) (t : TaskId) (a : AppId) (c : ChildId) : Prop :=
  ∃ acts s', Run SupervisorStep s acts s' ∧ (∀ x ∈ acts, Quiet x) ∧ (s'.task t).holds = none ∧
    Untouched t a c s s'

theorem setTask_untouched (full : s.slot a = some c) (up : s.Alive c) (p : TaskPhase) :
    Untouched t a c s (s.setTask t p) :=
  ⟨fun _ ne => Function.update_of_ne ne _ _, rfl, full, up⟩

theorem setTask_here (s : Supervisor) (t : TaskId) (p : TaskPhase) : (s.setTask t p).task t = p :=
  Function.update_self _ _ _

theorem starting_releases (here : s.task t = .starting u a token) (full : s.slot a = some c)
    (up : s.Alive c) : Releases s t a c := by
  cases u with
  | ensure =>
    refine ⟨[.spawnFailed t a ""], _, run_single (.ensureFailed here), by simp [Quiet], ?_,
      setTask_untouched full up _⟩
    rw [setTask_here]
    rfl
  | resident service =>
    obtain ⟨st, found, child⟩ := Option.bind_eq_some_iff.mp full
    have run := run_single (@SupervisorStep.spawnFailed s t service a st token "" here found)
    have run := run.snoc (.wakeFailing (setTask_here _ _ _))
    refine ⟨_, _, run, by simp [Quiet], ?_, ?_⟩
    · rw [setTask_here]
      rfl
    · constructor
      · intro t' ne
        simp [Supervisor.setTask, Supervisor.setApp, ne]
      · rfl
      · simp [Supervisor.slot, Supervisor.setTask, Supervisor.setApp, child]
      · exact up

theorem holder_releases (sound : Sound s) (idle : Idle s) (holds : (s.task t).holds = some a)
    (full : s.slot a = some c) (up : s.Alive c) : Releases s t a c := by
  have emptied : ∀ {b : AppId}, (s.task t).view = some (b, none) → b = a → False := by
    rintro b view rfl
    have empty := sound.view t b none view
    rw [full] at empty
    cases empty
  cases here : s.task t with
  | failing service b =>
    refine ⟨[.wake t], _, run_single (.wakeFailing here), by simp [Quiet], ?_,
      setTask_untouched full up _⟩
    rw [setTask_here]
    rfl
  | spawning u b =>
    simp only [here, TaskPhase.holds, Option.some.injEq] at holds
    subst holds
    obtain ⟨st, found, _⟩ := Option.bind_eq_some_iff.mp full
    have first := @SupervisorStep.issue s t u b st "" here found
    have started : Releases ((s.setToken st.spec.service (some "")).setTask t (.starting u b ""))
        t b c := starting_releases (setTask_here _ _ _) full up
    obtain ⟨acts, s', run, quiet, free, rest⟩ := started
    refine ⟨_, s', run_cons first run, ?_, free, ?_⟩
    · simpa [Quiet] using quiet
    · refine ⟨?_, rest.apps, rest.full, rest.up⟩
      intro t' ne
      rw [rest.others t' ne]
      exact Function.update_of_ne ne _ _
  | starting u b token =>
    simp only [here, TaskPhase.holds, Option.some.injEq] at holds
    subst holds
    exact starting_releases here full up
  | ensuring b =>
    simp only [here, TaskPhase.holds, Option.some.injEq] at holds
    subst holds
    have running : ∀ success, s.state c ≠ some (.exited success) := by
      intro success finished
      rw [up] at finished
      cases finished
    refine ⟨[.running t b c], _, run_single (.running here full running), by simp [Quiet], ?_,
      setTask_untouched full up _⟩
    rw [setTask_here]
    rfl
  | waiting service b d =>
    simp only [here, TaskPhase.holds, Option.some.injEq] at holds
    subst holds
    have seen := sound.view t b (some d) (by rw [here]; rfl)
    rw [full] at seen
    cases seen
    exact absurd up (idle t c (by rw [here]; rfl)).2
  | stopping p b d | killing p b d | stopWait p b d =>
    simp only [here, TaskPhase.holds, Option.some.injEq] at holds
    exact (emptied (by rw [here]; rfl) holds).elim
  | _ => simp [here, TaskPhase.holds] at holds

/-- The child mutex of a running app can become free while the app runs on. -/
theorem mutex_freed (sound : Sound s) (idle : Idle s) (full : s.slot a = some c)
    (up : s.Alive c) : ∃ acts s', Run SupervisorStep s acts s' ∧ (∀ x ∈ acts, Quiet x) ∧
      s'.Free a ∧ s'.apps = s.apps ∧ s'.slot a = some c ∧ s'.Alive c ∧
      ∀ t, (s.task t).holds = none → s'.task t = s.task t := by
  by_cases free : s.Free a
  · exact ⟨[], s, Run.nil, by simp, free, rfl, full, up, fun _ _ => rfl⟩
  · simp only [Supervisor.Free, not_forall, not_not] at free
    obtain ⟨t, holds⟩ := free
    obtain ⟨acts, s', run, quiet, none, rest⟩ := holder_releases sound idle holds full up
    refine ⟨acts, s', run, quiet, ?_, rest.apps, rest.full, rest.up, ?_⟩
    · intro t' holds'
      by_cases eq : t' = t
      · subst eq
        rw [none] at holds'
        cases holds'
      · rw [rest.others t' eq] at holds'
        exact eq (sound.mutex t' t a holds' holds)
    · intro t' apart
      refine rest.others t' ?_
      rintro rfl
      rw [apart] at holds
      cases holds

theorem setTask_setTask (s : Supervisor) (t : TaskId) (p q : TaskPhase) :
    (s.setTask t p).setTask t q = s.setTask t q := by
  simp [Supervisor.setTask]

theorem setTask_free {p : TaskPhase} (free : s.Free a) (none : p.holds = none) :
    (s.setTask t p).Free a := by
  intro t' holds
  by_cases eq : t' = t
  · subst eq
    rw [setTask_here, none] at holds
    cases holds
  · simp only [Supervisor.setTask, Function.update_of_ne eq] at holds
    exact free t' holds

theorem look_returns (here : s.task t = .ensuring a) (full : s.slot a = some c) (up : s.Alive c) :
    Run SupervisorStep s [.running t a c] (s.setTask t (.done (.ok ()))) := by
  refine run_single (.running here full fun success finished => ?_)
  rw [up] at finished
  cases finished

theorem lock_returns (free : s.Free a) (here : s.task t = .ensureLock a)
    (full : s.slot a = some c) (up : s.Alive c) :
    Run SupervisorStep s [.ensureLock t a, .running t a c] (s.setTask t (.done (.ok ()))) := by
  have rest := look_returns (s := s.setTask t (.ensuring a)) (setTask_here _ _ _) full up
  rw [setTask_setTask] at rest
  exact run_cons (.ensureLock here free) rest

theorem get_returns (free : s.Free a) (here : s.task t = .ensure service)
    (listed : s.apps service = some a) (full : s.slot a = some c) (up : s.Alive c) :
    Run SupervisorStep s [.ensureGet t (some a), .ensureLock t a, .running t a c]
      (s.setTask t (.done (.ok ()))) := by
  have rest := lock_returns (s := s.setTask t (.ensureLock a)) (setTask_free free rfl)
    (setTask_here _ _ _) full up
  rw [setTask_setTask] at rest
  exact run_cons (.ensureGet here listed) rest

theorem ensure_returns (free : s.Free a) (listed : s.apps service = some a)
    (full : s.slot a = some c) (up : s.Alive c) (new : s.task t = .unused) :
    Run SupervisorStep s
      [.ensureUp service t, .ensureGet t (some a), .ensureLock t a, .running t a c]
      (s.setTask t (.done (.ok ()))) := by
  have rest := get_returns (s := s.setTask t (.ensure service)) (setTask_free free rfl)
    (setTask_here _ _ _) listed full up
  rw [setTask_setTask] at rest
  exact run_cons (.ensureUp new) rest

theorem lock_kills {p : Purpose} (free : s.Free a) (here : s.task t = .stopLock p a)
    (full : s.slot a = some c) (up : s.Alive c) :
    ∃ s', Run SupervisorStep s [.take t a (some c), .kill t c] s' := by
  obtain ⟨st, found, child⟩ := Option.bind_eq_some_iff.mp full
  have run := run_single (SupervisorStep.take here free found child)
  exact ⟨_, run.snoc (.kill (setTask_here _ _ _) up)⟩

theorem get_kills {p : Purpose} (free : s.Free a) (here : s.task t = .stop p)
    (listed : s.apps p.service = some a) (full : s.slot a = some c) (up : s.Alive c) :
    ∃ s', Run SupervisorStep s [.stopGet t (some a), .take t a (some c), .kill t c] s' := by
  obtain ⟨s', rest⟩ := lock_kills (s := s.setTask t (.stopLock p a)) (setTask_free free rfl)
    (setTask_here _ _ _) full up
  exact ⟨s', run_cons (.stopGet here listed) rest⟩

theorem contains_kills {p : Purpose} (free : s.Free a) (here : s.task t = .contains p)
    (listed : s.apps p.service = some a) (full : s.slot a = some c) (up : s.Alive c) :
    ∃ s', Run SupervisorStep s
      [.contains t true, .stopGet t (some a), .take t a (some c), .kill t c] s' := by
  obtain ⟨s', rest⟩ := get_kills (s := s.setTask t (.stop p)) (setTask_free free rfl)
    (setTask_here _ _ _) listed full up
  exact ⟨s', run_cons (.known here listed) rest⟩

theorem stop_kills {p : Purpose} (free : s.Free a) (listed : s.apps p.service = some a)
    (full : s.slot a = some c) (up : s.Alive c) (new : s.task t = .unused) :
    ∃ s', Run SupervisorStep s
      [.change p t, .contains t true, .stopGet t (some a), .take t a (some c), .kill t c] s' := by
  obtain ⟨s', rest⟩ := contains_kills (s := s.setTask t (.contains p)) (setTask_free free rfl)
    (setTask_here _ _ _) listed full up
  exact ⟨s', run_cons (.change new) rest⟩

theorem ensures_returns (sound : Sound s) (idle : Idle s) (full : s.slot a = some c)
    (up : s.Alive c) (asks : Ensures s a (s.task t)) :
    ∃ acts s', Run SupervisorStep s acts s' ∧ (∀ x ∈ acts, Quiet x) ∧
      s'.task t = .done (.ok ()) ∧ s'.slot a = some c ∧ s'.Alive c := by
  generalize here : s.task t = p at asks
  cases asks with
  | look => exact ⟨_, _, look_returns here full up, by simp [Quiet], setTask_here _ _ _, full, up⟩
  | lock =>
    obtain ⟨acts, v, run, quiet, free, _, full, up, same⟩ := mutex_freed sound idle full up
    have rest := lock_returns free ((same t (by rw [here]; rfl)).trans here) full up
    exact ⟨_, _, run_append run rest, List.forall_mem_append.mpr ⟨quiet, by simp [Quiet]⟩,
      setTask_here _ _ _, full, up⟩
  | get listed =>
    obtain ⟨acts, v, run, quiet, free, apps, full, up, same⟩ := mutex_freed sound idle full up
    have rest := get_returns free ((same t (by rw [here]; rfl)).trans here) (by rwa [apps]) full up
    exact ⟨_, _, run_append run rest, List.forall_mem_append.mpr ⟨quiet, by simp [Quiet]⟩,
      setTask_here _ _ _, full, up⟩

theorem stops_kill (sound : Sound s) (idle : Idle s) (full : s.slot a = some c)
    (up : s.Alive c) (asks : Stops s a (s.task t)) :
    ∃ acts s', Run SupervisorStep s acts s' ∧ (∀ x ∈ acts, Quiet x) ∧ .kill t c ∈ acts := by
  obtain ⟨acts, v, run, quiet, free, apps, full, up, same⟩ := mutex_freed sound idle full up
  generalize here : s.task t = p at asks
  have still : p.holds = none → v.task t = p := by
    intro apart
    rw [← here]
    exact same t (by rwa [here])
  cases asks with
  | contains listed =>
    obtain ⟨s', rest⟩ := contains_kills free (still rfl) (by rwa [apps]) full up
    exact ⟨_, s', run_append run rest, List.forall_mem_append.mpr ⟨quiet, by simp [Quiet]⟩, by simp⟩
  | get listed =>
    obtain ⟨s', rest⟩ := get_kills free (still rfl) (by rwa [apps]) full up
    exact ⟨_, s', run_append run rest, List.forall_mem_append.mpr ⟨quiet, by simp [Quiet]⟩, by simp⟩
  | lock =>
    obtain ⟨s', rest⟩ := lock_kills free (still rfl) full up
    exact ⟨_, s', run_append run rest, List.forall_mem_append.mpr ⟨quiet, by simp [Quiet]⟩, by simp⟩

theorem own_step {d : TaskId} {p q : TaskPhase} (here : s.task d = q)
    (moved : Function.update s.task d p t ≠ s.task t) : d = t ∧ s.task t = q := by
  by_cases eq : d = t
  · subst eq
    exact ⟨rfl, here⟩
  · exact absurd (Function.update_of_ne (Ne.symm eq) _ _) moved

def TaskPhase.asks : TaskPhase → Bool
  | .ensure _ | .ensureLock _ | .ensuring _ | .contains _ | .stop _ | .stopLock _ _
  | .stopping _ _ _ => true
  | _ => false

def asker : SupervisorAct → Option TaskId
  | .ensureGet t _ | .ensureLock t _ | .running t _ _ | .absent t _ | .tryWaitFailed t _ _
  | .contains t _ | .stopGet t _ | .take t _ _ | .kill t _ | .killFailed t _ => some t
  | _ => none

theorem step_asker (h : SupervisorStep s x s') (asks : (s.task t).asks = true)
    (moved : s'.task t ≠ s.task t) : asker x = some t := by
  cases h with
  | ensureGet here | ensureMissing here | ensureLock here | running here | absent here
  | tryWaitFailed here | known here | unknownReplace here | unknownUnregister here | stopGet here
  | stopMissing here | take here | takeNone here | kill here | killFailed here
  | killWaitFailed here =>
    obtain ⟨rfl, _⟩ := own_step here moved
    rfl
  | spawned here =>
    simp only [Supervisor.setTask, startChild_task] at moved
    obtain ⟨rfl, same⟩ := own_step here moved
    rw [same] at asks
    cases asks
  | stopWaitFailed here =>
    simp only [Supervisor.setTask, dropChild_task] at moved
    obtain ⟨rfl, same⟩ := own_step here moved
    rw [same] at asks
    cases asks
  | @loop service d d' here new =>
    by_cases eq : t = d
    · subst eq
      rw [here] at asks
      cases asks
    · simp only [Supervisor.setTask, Function.update_of_ne eq] at moved
      obtain ⟨rfl, same⟩ := own_step new moved
      rw [same] at asks
      cases asks
  | collect => exact absurd (by simp [Supervisor.setApp]) moved
  | register | exit | die | hello => exact absurd rfl moved
  | startResident here | residentGet here | residentGone here | spawnLock here | waitLock here
  | waitNone here | waited here | waitFailed here | wakeResting here | wakeFailing here | issue here
  | spawnFailed here | ensureFailed here | ensureUp here | change here | killed here | stopped here
  | removedReplace here | removedUnregister here | inserted here =>
    obtain ⟨rfl, same⟩ := own_step here moved
    rw [same] at asks
    cases asks

theorem ensures_step (h : SupervisorStep s x s') (full : s.slot a = some c) (up : s.Alive c)
    (asks : Ensures s a (s.task t)) (moved : s'.task t ≠ s.task t) :
    s' = s.setTask t (s'.task t) ∧ (Ensures s' a (s'.task t) ∨ Returns t a c x (s'.task t)) := by
  have own : asker x = some t := by
    refine step_asker h ?_ moved
    generalize s.task t = p at asks ⊢
    cases asks <;> rfl
  cases h with
  | ensureGet here listed =>
    cases own
    rw [here] at asks
    cases asks with
    | get known =>
      rw [known] at listed
      cases listed
      rw [setTask_here]
      exact ⟨rfl, Or.inl .lock⟩
  | ensureMissing here absent =>
    cases own
    rw [here] at asks
    cases asks with
    | get listed =>
      rw [listed] at absent
      cases absent
  | ensureLock here =>
    cases own
    rw [here] at asks
    cases asks
    rw [setTask_here]
    exact ⟨rfl, Or.inl .look⟩
  | running here found =>
    cases own
    rw [here] at asks
    cases asks
    rw [full] at found
    cases found
    rw [setTask_here]
    exact ⟨rfl, Or.inr (Or.inl ⟨rfl, rfl⟩)⟩
  | tryWaitFailed here found =>
    cases own
    rw [here] at asks
    cases asks
    rw [setTask_here]
    exact ⟨rfl, Or.inr (Or.inr ⟨_, rfl, rfl⟩)⟩
  | absent here down =>
    cases own
    rw [here] at asks
    cases asks
    obtain ⟨success, finished⟩ := down c full
    rw [up] at finished
    cases finished
  | known here | unknownReplace here | unknownUnregister here | stopGet here | stopMissing here
  | take here | takeNone here | kill here | killFailed here | killWaitFailed here =>
    cases own
    rw [here] at asks
    cases asks
  | _ => cases own

theorem stops_listed {p : Purpose} {q : TaskPhase} (asks : Stops s a q)
    (early : q = .contains p ∨ q = .stop p) : s.apps p.service = some a := by
  cases asks with
  | contains listed | get listed =>
    rcases early with same | same <;> cases same
    exact listed
  | lock => rcases early with same | same <;> cases same

theorem stops_step (h : SupervisorStep s x s') (full : s.slot a = some c) (up : s.Alive c)
    (asks : Stops s a (s.task t)) (moved : s'.task t ≠ s.task t) :
    Stops s' a (s'.task t) ∨
      x = .take t a (some c) ∧ (s'.task t).taken = some c ∧ s'.Alive c := by
  have own : asker x = some t := by
    refine step_asker h ?_ moved
    generalize s.task t = p at asks ⊢
    cases asks <;> rfl
  cases h with
  | known here =>
    cases own
    rw [here] at asks
    cases asks with
    | contains listed =>
      rw [setTask_here]
      exact Or.inl (.get listed)
  | unknownReplace here absent | unknownUnregister here absent =>
    cases own
    rw [here] at asks
    have listed := stops_listed asks (Or.inl rfl)
    cases absent.symm.trans listed
  | stopMissing here absent =>
    cases own
    rw [here] at asks
    have listed := stops_listed asks (Or.inr rfl)
    cases absent.symm.trans listed
  | stopGet here listed =>
    cases own
    rw [here] at asks
    cases asks with
    | get known =>
      rw [known] at listed
      cases listed
      rw [setTask_here]
      exact Or.inl .lock
  | @take p d b st k here free found child =>
    cases own
    rw [here] at asks
    cases asks
    rw [Supervisor.slot, found, Option.bind_some, child] at full
    cases full
    rw [setTask_here]
    exact Or.inr ⟨rfl, rfl, up⟩
  | takeNone here _ empty =>
    cases own
    rw [here] at asks
    cases asks
    rw [full] at empty
    cases empty
  | ensureGet here | ensureMissing here | ensureLock here | running here | absent here
  | tryWaitFailed here | kill here | killFailed here | killWaitFailed here =>
    cases own
    rw [here] at asks
    cases asks
  | _ => cases own

theorem stopping_step {p : Purpose} (here : s.task t = .stopping p a c) (up : s.Alive c)
    (h : SupervisorStep s x s') (moved : s'.task t ≠ s.task t) (clear : Clear s x) :
    x = .kill t c := by
  have own : asker x = some t := by
    refine step_asker h ?_ moved
    rw [here]
    rfl
  cases h with
  | kill there =>
    cases own
    rw [here] at there
    cases there
    rfl
  | killFailed there =>
    cases own
    rw [here] at there
    cases there
    exact absurd up clear
  | ensureGet there | ensureMissing there | ensureLock there | running there | absent there
  | tryWaitFailed there | known there | unknownReplace there | unknownUnregister there
  | stopGet there | stopMissing there | take there | takeNone there | killWaitFailed there =>
    cases own
    rw [here] at there
    cases there
  | _ => cases own

theorem setState_state {p q : ProcessState} (known : s.state c = some q) :
    (s.setState c p).state c = some p := by
  obtain ⟨k, found, _⟩ := Option.map_eq_some_iff.mp known
  simp [Supervisor.state, Supervisor.setState, found]

theorem taker_releases (idle : Idle s) (up : s.Alive c)
    (taken : (s.task t).taken = some c) :
    ∃ acts s', Run SupervisorStep s acts s' ∧ (∀ x ∈ acts, Quiet x) ∧
      (s'.task t).holds = none := by
  have waits : ∀ {d : ChildId}, (s.task t).waitsFor = some d → d = c → False := by
    rintro d waits rfl
    exact (idle t d waits).2 up
  cases here : s.task t with
  | stopping p b d =>
    simp only [here, TaskPhase.taken, Option.some.injEq] at taken
    subst taken
    have run := run_single (SupervisorStep.kill here up)
    have signalled := setState_state (p := .killed) up
    have run := run.snoc (.die signalled)
    have finished := setState_state (p := .exited false) signalled
    have run := run.snoc (.killed (setTask_here _ _ _) finished)
    have run := run.snoc (.stopped (setTask_here _ _ _) finished)
    refine ⟨_, _, run, by simp [Quiet], ?_⟩
    rw [setTask_here]
    rfl
  | killing p b d | stopWait p b d =>
    simp only [here, TaskPhase.taken, Option.some.injEq] at taken
    exact (waits (by rw [here]; rfl) taken).elim
  | _ => simp [here, TaskPhase.taken] at taken

theorem quiet_keeps {acts : List SupervisorAct} (quiet : ∀ x ∈ acts, Quiet x) :
    ∀ x ∈ acts, ¬ Frees t c x := by
  intro x mem
  have still := quiet x mem
  cases x <;> simp_all [Quiet, Frees]

theorem not_held_until_exit (run : Run SupervisorStep s acts s') (quiet : ∀ x ∈ acts, Quiet x)
    (none : (s'.task t).holds = none) : ¬ HoldsUntilExit s t a c := by
  intro held
  have still := held acts s' run (quiet_keeps quiet)
  rw [none] at still
  cases still

/-- While every step is clear, the supervisor can act on every app that runs. -/
theorem supervisor_can_act
    (run : Run (Guarded SupervisorStep Clear) (Supervisor.new endpoint) acts s) : CanAct s := by
  have sound : Sound s := sound ⟨acts, guarded_run run⟩
  have idle : Idle s := by
    refine run_history (p := fun _ s => Idle s) ?_ ?_ run
    · intro t c waits
      cases waits
    · intro acts s x s' before step known
      exact idle_step ⟨acts, guarded_run before⟩ step.1 step.2 known
  constructor
  · intro t a c belongs up holds
    rcases belongs with full | ⟨t', taken, holds'⟩
    · obtain ⟨acts, s', run, quiet, none, _⟩ := holder_releases sound idle holds full up
      exact not_held_until_exit run quiet none
    · obtain rfl := sound.mutex t t' a holds holds'
      obtain ⟨acts, s', run, quiet, none⟩ := taker_releases idle up taken
      exact not_held_until_exit run quiet none
  · intro service t a c listed full up new
    obtain ⟨acts, v, run, quiet, free, apps, full, up, same⟩ := mutex_freed sound idle full up
    have unused := (same t (by rw [new]; rfl)).trans new
    have returns := ensure_returns free (by rwa [apps]) full up unused
    exact ⟨_, _, run_append run returns, List.forall_mem_append.mpr ⟨quiet, by simp [Quiet]⟩,
      by simp, setTask_here _ _ _, full, up⟩
  · intro t a c full up asks
    exact ensures_returns sound idle full up asks
  · intro t a c x s' full up asks step moved
    exact ensures_step step full up asks moved
  · intro p t a c listed full up new
    obtain ⟨acts, v, run, quiet, free, apps, full, up, same⟩ := mutex_freed sound idle full up
    have unused := (same t (by rw [new]; rfl)).trans new
    obtain ⟨s', kills⟩ := stop_kills free (by rwa [apps]) full up unused
    exact ⟨_, s', run_append run kills, List.forall_mem_append.mpr ⟨quiet, by simp [Quiet]⟩,
      by simp, by simp⟩
  · intro t a c full up asks
    exact stops_kill sound idle full up asks
  · intro t a c x s' full up asks step moved
    exact stops_step step full up asks moved
  · intro p t a c here up
    exact ⟨⟨_, .kill here up⟩, fun x s' step moved clear => stopping_step here up step moved clear⟩

def Stuck (p : TaskPhase) (a : AppId) (c : ChildId) : Prop :=
  (∃ service, p = .waiting service a c) ∨ ∃ q, p = .stopWait q a c

theorem stuck_holds {p : TaskPhase} (stuck : Stuck p a c) : p.holds = some a := by
  rcases stuck with ⟨service, rfl⟩ | ⟨q, rfl⟩ <;> rfl

theorem stuck_owner (sound : Sound s) (stuck : Stuck (s.task t) a c) :
    s.owns (.inl a) = some c ∨ s.owns (.inr t) = some c := by
  rcases stuck with ⟨service, here⟩ | ⟨q, here⟩
  · exact Or.inl (sound.view t a (some c) (by rw [here]; rfl))
  · refine Or.inr ?_
    simp [Supervisor.owns, here, TaskPhase.taken]

theorem stuck_up (sound : Sound s) (h : SupervisorStep s x s') (stuck : Stuck (s.task t) a c)
    (up : s.Alive c) (kept : ¬ Frees t c x) : s'.Alive c := by
  have held := stuck_holds stuck
  have seen : (s.task t).view ≠ none := by
    rcases stuck with ⟨service, here⟩ | ⟨q, here⟩ <;> simp [here, TaskPhase.view]
  -- a slot with the child in it is the one whose mutex the task has locked
  have slot : ∀ {b : AppId}, s.slot b = some c → b = a := by
    intro b full
    rcases stuck_owner sound stuck with owned | owned
    · have same := sound.unique (.inl b) (.inl a) c full owned
      simpa using same
    · have same := sound.unique (.inl b) (.inr t) c full owned
      cases same
  have taker : ∀ {d : TaskId}, (s.task d).taken = some c → d = t := by
    intro d taken
    rcases stuck_owner sound stuck with owned | owned
    · have same := sound.unique (.inr d) (.inl a) c taken owned
      cases same
    · have same := sound.unique (.inr d) (.inr t) c taken owned
      simpa using same
  rcases step_ends h up with still | ended
  · exact still
  · cases ended with
    | exit => exact absurd rfl kept
    | kill taken =>
      obtain rfl := taker taken
      cases h with
      | kill here => rcases stuck with ⟨service, other⟩ | ⟨q, other⟩ <;> simp [here] at other
    | @replaced d b c' held' blind full =>
      obtain rfl := slot full
      obtain rfl := sound.mutex t d b held held'
      exact absurd blind seen
    | @dropped d taken => exact absurd (taker taken) kept
    | collected unused full =>
      obtain rfl := slot full
      exact absurd (holds_arc held) (unused.2 t)

theorem stuck_step (h : SupervisorStep s x s') (stuck : Stuck (s.task t) a c) (up : s.Alive c)
    (kept : ¬ Frees t c x) : s'.task t = s.task t := by
  have running : ∀ {success : Bool}, s.state c ≠ some (.exited success) := by
    intro success finished
    rw [up] at finished
    cases finished
  have other : ∀ {d : TaskId} {p q : TaskPhase}, s.task d = q → (d = t → ¬ Stuck q a c) →
      Function.update s.task d p t = s.task t := by
    intro d p q here apart
    refine Function.update_of_ne ?_ _ _
    rintro rfl
    rw [here] at stuck
    exact apart rfl stuck
  cases h with
  | waited here finished | stopped here finished =>
    refine other here fun _ waits => ?_
    simp [Stuck] at waits
    obtain ⟨_, rfl⟩ := waits
    exact running finished
  | waitFailed here => exact other here fun eq => absurd eq kept
  | stopWaitFailed here =>
    simp only [Supervisor.setTask, dropChild_task]
    exact other here fun eq => absurd eq kept
  | spawned here =>
    simp only [Supervisor.setTask, startChild_task]
    exact other here (by simp [Stuck])
  | @loop service d d' here new =>
    have first : Function.update s.task d' (.resident service) t = s.task t :=
      other new (by simp [Stuck])
    simp only [Supervisor.setTask]
    rw [Function.update_of_ne, first]
    rintro rfl
    rw [here] at stuck
    simp [Stuck] at stuck
  | collect => simp [Supervisor.setApp]
  | register | exit | die | hello => rfl
  | startResident here | residentGet here | residentGone here | spawnLock here | waitLock here
  | waitNone here | wakeResting here | wakeFailing here | issue here | spawnFailed here
  | ensureFailed here | ensureUp here | ensureGet here | ensureMissing here | ensureLock here
  | running here | absent here | tryWaitFailed here | change here | known here
  | unknownReplace here | unknownUnregister here | stopGet here | stopMissing here | take here
  | takeNone here | kill here | killFailed here | killWaitFailed here | killed here
  | removedReplace here | removedUnregister here | inserted here =>
    exact other here (by simp [Stuck])

theorem stuck_blocks (reach : SupervisorReachable endpoint s) (stuck : Stuck (s.task t) a c)
    (up : s.Alive c) : HoldsUntilExit s t a c := by
  intro acts s' run kept
  have still : Stuck (s'.task t) a c ∧ s'.Alive c := by
    induction run with
    | nil => exact ⟨stuck, up⟩
    | @snoc acts v s' x before last ih =>
      obtain ⟨stuck, up⟩ := ih fun y mem => kept y (List.mem_append_left _ mem)
      have quiet : ¬ Frees t c x := kept x (by simp)
      rw [stuck_step last stuck up quiet]
      exact ⟨stuck, stuck_up (sound (reachable_run reach before)) last stuck up quiet⟩
  exact stuck_holds still.1

/-- A step that is not clear leaves a running app that nobody can stop. -/
theorem unclear_blocks (reach : SupervisorReachable endpoint s) (h : SupervisorStep s x s')
    (left : ¬ Clear s x) : ¬ CanAct s' := by
  intro can
  have reach' := reachable_step reach h
  have blocked : ∀ {t a c}, Belongs s' a c → s'.Alive c → Stuck (s'.task t) a c → False := by
    intro t a c belongs up stuck
    exact can.released t a c belongs up (stuck_holds stuck) (stuck_blocks reach' stuck up)
  cases h with
  | @waitLock service t a c here free found =>
    refine blocked (Or.inl found) (not_not.mp left) (t := t) ?_
    rw [setTask_here]
    exact Or.inl ⟨service, rfl⟩
  | @killFailed p t a c here | @killWaitFailed p t a c here =>
    refine blocked (a := a) (Or.inr ⟨t, ?_, ?_⟩) (not_not.mp left) (t := t) ?_
    · rw [setTask_here]
      rfl
    · rw [setTask_here]
      rfl
    · rw [setTask_here]
      exact Or.inr ⟨p, rfl⟩
  | _ => exact left trivial

def videoSpec : AppSpec := ⟨"video", "/usr/local/bin/video", [], [], .resident, none⟩

structure Alone (s : Supervisor) (p : TaskPhase) (st : AppState) : Prop where
  here : s.task 0 = p
  others : ∀ t, t ≠ 0 → s.task t = .unused
  listed : s.apps "video" = some 0
  found : s.app 0 = some st

theorem alone_free {p : TaskPhase} {st : AppState} (alone : Alone s p st) (none : p.holds = none) :
    s.Free a := by
  intro t holds
  by_cases eq : t = 0
  · subst eq
    rw [alone.here, none] at holds
    cases holds
  · rw [alone.others t eq] at holds
    cases holds

theorem alone_moves {p : TaskPhase} {st : AppState} (alone : Alone s p st) (q : TaskPhase) :
    Alone (s.setTask 0 q) q st := by
  refine ⟨setTask_here _ _ _, ?_, alone.listed, alone.found⟩
  intro t ne
  rw [← alone.others t ne]
  exact Function.update_of_ne ne _ _

theorem dropChild_fresh {o : Option ChildId} (fresh : s.child c = none) :
    (s.dropChild o).child c = none := by
  cases o with
  | none => exact fresh
  | some d =>
    simp only [Supervisor.dropChild]
    split
    · by_cases eq : c = d
      · subst eq
        simp [Supervisor.setState, fresh]
      · simpa [Supervisor.setState, eq] using fresh
    · exact fresh

theorem startChild_fresh {st : AppState} {d : ChildId} (ne : d ≠ c) (fresh : s.child d = none) :
    (s.startChild a st c token).child d = none := by
  simpa [Supervisor.startChild, ne] using dropChild_fresh (o := st.child) fresh

def spawnActs (c : ChildId) : List SupervisorAct :=
  [.residentGet 0 (some 0), .spawnLock 0 0, .issue 0 0 "token", .spawned 0 0 c]

theorem locked_spawns {st : AppState} (alone : Alone s (.spawning (.resident "video") 0) st)
    (new : s.child c = none) :
    ∃ s', Run SupervisorStep s [.issue 0 0 "token", .spawned 0 0 c] s' ∧
      Alone s' (.waitLock "video" 0) { st with child := some c } ∧ s'.Alive c ∧
      ∀ d, d ≠ c → s.child d = none → s'.child d = none := by
  have run := run_single (@SupervisorStep.issue _ _ _ _ _ "token" alone.here alone.found)
  have run := run.snoc (@SupervisorStep.spawned _ _ _ _ _ _ c (setTask_here _ _ _) alone.found new)
  refine ⟨_, run, ⟨setTask_here _ _ _, ?_, ?_, ?_⟩, ?_, ?_⟩
  · intro t ne
    rw [← alone.others t ne]
    simp [Supervisor.setTask, Supervisor.setToken, ne]
  · simpa [Supervisor.setTask, Supervisor.setToken] using alone.listed
  · simp [Supervisor.setTask, Supervisor.startChild, Supervisor.setApp]
  · simp [Supervisor.Alive, Supervisor.state, Supervisor.setTask, Supervisor.startChild]
  · intro d ne fresh
    exact startChild_fresh (a := 0) ne fresh

theorem loop_spawns {st : AppState} (alone : Alone s (.resident "video") st)
    (new : s.child c = none) : ∃ s', Run SupervisorStep s (spawnActs c) s' ∧
      Alone s' (.waitLock "video" 0) { st with child := some c } ∧ s'.Alive c ∧
      ∀ d, d ≠ c → s.child d = none → s'.child d = none := by
  have run := run_single (SupervisorStep.residentGet alone.here alone.listed)
  have alone := alone_moves alone (.spawnLock "video" 0)
  have run := run.snoc (.spawnLock alone.here (alone_free alone rfl))
  have alone := alone_moves alone (.spawning (.resident "video") 0)
  obtain ⟨s', spawns, rest⟩ := locked_spawns alone new
  exact ⟨s', run_append run spawns, rest⟩

theorem loop_rests {st : AppState} (alone : Alone s (.waiting "video" 0 c) st)
    (finished : s.state c = some (.exited true)) : ∃ s',
      Run SupervisorStep s [.waited 0 c true st.backoff.reset.bump.1, .wake 0] s' ∧
      Alone s' (.resident "video") { st with backoff := st.backoff.reset.bump.2 } ∧
      s'.child = s.child := by
  have run := run_single (@SupervisorStep.waited s "video" 0 0 c st true _ alone.here finished
    alone.found rfl)
  have run := run.snoc (.wakeResting (setTask_here _ _ _))
  refine ⟨_, run, ⟨setTask_here _ _ _, ?_, alone.listed, ?_⟩, rfl⟩
  · intro t ne
    rw [← alone.others t ne]
    simp [Supervisor.setTask, Supervisor.setApp, ne]
  · simp [Supervisor.setTask, Supervisor.setApp]

def readyActs : List SupervisorAct := [.register videoSpec 0, .startResident "video" 0]

theorem ready : ∃ s, SupervisorRun "bus" readyActs s ∧
    Alone s (.resident "video") (AppState.new videoSpec) ∧ ∀ c, s.child c = none := by
  have run := run_single (@SupervisorStep.register (Supervisor.new "bus") videoSpec 0 rfl)
  have run := run.snoc (@SupervisorStep.startResident _ "video" 0 0 _ rfl rfl rfl rfl)
  refine ⟨_, run, ⟨rfl, ?_, rfl, rfl⟩, fun _ => rfl⟩
  intro t ne
  exact Function.update_of_ne ne _ _

def startActs : List SupervisorAct := readyActs ++ spawnActs 0

theorem started : ∃ s, SupervisorRun "bus" startActs s ∧
    Alone s (.waitLock "video" 0) { AppState.new videoSpec with child := some 0 } ∧ s.Alive 0 ∧
    s.child 1 = none := by
  obtain ⟨v, run, alone, none⟩ := ready
  obtain ⟨s, spawns, waits, up, fresh⟩ := loop_spawns alone (none 0)
  exact ⟨s, run_append run spawns, waits, up, fresh 1 (by decide) (none 1)⟩

theorem waiting_loop_blocks : ¬ ∀ acts s, SupervisorRun "bus" acts s → CanAct s := by
  intro claim
  obtain ⟨s, run, alone, up, _⟩ := started
  have full : s.slot 0 = some 0 := by simp [Supervisor.slot, alone.found]
  have step := SupervisorStep.waitLock alone.here (alone_free alone rfl) full
  exact unclear_blocks ⟨_, run⟩ step (not_not.mpr up) (claim _ _ (run.snoc step))

theorem restarted_can_act : ∃ s, s.slot 0 = some 1 ∧ s.Alive 1 ∧ CanAct s := by
  obtain ⟨s, run, alone, up, fresh⟩ := started
  have clear := run_guarded (g := Clear) (run.snoc (@SupervisorStep.exit s 0 true up))
    (by simp [startActs, readyActs, spawnActs, Clear])
  have finished : (s.setState 0 (.exited true)).state 0 = some (.exited true) := setState_state up
  have ended : Alone (s.setState 0 (.exited true)) _ _ :=
    ⟨alone.here, alone.others, alone.listed, alone.found⟩
  have full : (s.setState 0 (.exited true)).slot 0 = some 0 := by
    simp [Supervisor.slot, ended.found]
  have waits : Guarded SupervisorStep Clear (s.setState 0 (.exited true)) (.waitLock 0 0 (some 0))
      ((s.setState 0 (.exited true)).setTask 0 (.waiting "video" 0 0)) := by
    refine ⟨.waitLock ended.here (alone_free ended rfl) full, ?_⟩
    intro still
    rw [Supervisor.Alive, finished] at still
    cases still
  obtain ⟨v, rests, again, children⟩ :=
    loop_rests (alone_moves ended (.waiting "video" 0 0)) finished
  have unborn : v.child 1 = none := by
    rw [children]
    simp [Supervisor.setTask, Supervisor.setState, fresh]
  obtain ⟨s', spawns, last, up', _⟩ := loop_spawns (c := 1) again unborn
  have rest := run_guarded (g := Clear) (run_append rests spawns) (by simp [spawnActs, Clear])
  refine ⟨s', by simp [Supervisor.slot, last.found], up', ?_⟩
  exact supervisor_can_act (run_append (clear.snoc waits) rest)

end TokimoSupervisor

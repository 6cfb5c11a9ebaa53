import TokimoBus.SupervisorLock

/-!
How many restart loops a service has. `start_all_resident` starts one, and so does every
`register_or_replace` of a resident spec. The loop of the replaced spec is not told; it
ends only if it happens to look for a child or for the name while neither is there.
-/
namespace TokimoSupervisor
open TokimoFrame LabelledRuns
variable {s s' : Supervisor} {x : SupervisorAct} {acts : List SupervisorAct} {t t' : TaskId}
  {a a' : AppId} {c c' : ChildId} {endpoint service token : String} {u : Caller}

def Caller.loops : Caller → Option String
  | .resident service => some service
  | .ensure => none

def TaskPhase.loops : TaskPhase → Option String
  | .resident service | .spawnLock service _ | .failing service _ | .waitLock service _
  | .waiting service _ _ | .resting service _ => some service
  | .spawning u _ | .starting u _ _ => u.loops
  | _ => none

def TaskPhase.changes : TaskPhase → Bool
  | .contains _ | .stop _ | .stopLock _ _ | .stopping _ _ _ | .killing _ _ _ | .stopWait _ _ _
  | .remove _ | .insert _ | .loop _ => true
  | _ => false

def OneLoop (s : Supervisor) : Prop :=
  ∀ service t t', (s.task t).loops = some service → (s.task t').loops = some service → t = t'

def startsResident : SupervisorAct → Option String
  | .startResident service _ => some service
  | _ => none

def begins : SupervisorAct → Bool
  | .change _ _ => true
  | _ => false

/-- `start_all_resident` is called once, before the first `register_or_replace` and
    `unregister`. -/
def StartedOnce (acts : List SupervisorAct) : Prop :=
  acts.Pairwise fun x y =>
    startsResident y = none ∨ begins x = false ∧ startsResident x ≠ startsResident y

instance (acts : List SupervisorAct) : Decidable (StartedOnce acts) :=
  inferInstanceAs (Decidable (acts.Pairwise _))

/-- The condition under which `register_or_replace` starts the only loop of its service. -/
def Unlooped (s : Supervisor) : SupervisorAct → Prop
  | .loop t _ => ∀ service d, s.task t = .loop service → (s.task d).loops ≠ some service
  | _ => True

theorem step_loops (h : SupervisorStep s x s') (now : (s'.task t).loops = some service) :
    (s.task t).loops = some service ∨ x = .startResident service t ∨
      ∃ d, x = .loop d t ∧ s.task d = .loop service := by
  cases h with
  | startResident here =>
    rcases moved_to now with old | ⟨rfl, same⟩
    · exact Or.inl old
    · cases same
      exact Or.inr (Or.inl rfl)
  | @loop name d d' here new =>
    simp only [Supervisor.setTask] at now
    rcases moved_to now with old | ⟨_, same⟩
    · rcases moved_to old with older | ⟨rfl, same⟩
      · exact Or.inl older
      · cases same
        exact Or.inr (Or.inr ⟨d, rfl, here⟩)
    · cases same
  | @spawned d u b st token c here =>
    simp only [Supervisor.setTask, startChild_task] at now
    refine Or.inl (moved_from here ?_ now)
    cases u <;> simp [Caller.succeeded, TaskPhase.loops, Caller.loops]
  | @inserted spec d b here =>
    refine Or.inl (moved_from here ?_ now)
    cases spec.lifecycle <;> simp [TaskPhase.loops]
  | stopWaitFailed here =>
    simp only [Supervisor.setTask, dropChild_task] at now
    exact Or.inl (moved_from here (by simp [TaskPhase.loops]) now)
  | collect =>
    simp only [Supervisor.setApp, dropChild_task] at now
    exact Or.inl now
  | register | exit | die | hello => exact Or.inl now
  | residentGet here | residentGone here | spawnLock here | waitLock here | waitNone here
  | waited here | waitFailed here | wakeResting here | wakeFailing here | issue here
  | spawnFailed here | ensureFailed here | ensureUp here | ensureGet here | ensureMissing here
  | ensureLock here | running here | absent here | tryWaitFailed here | change here | known here
  | unknownReplace here | unknownUnregister here | stopGet here | stopMissing here | take here
  | takeNone here | kill here | killFailed here | killWaitFailed here | killed here
  | stopped here | removedReplace here | removedUnregister here =>
    exact Or.inl (moved_from here (by simp [TaskPhase.loops, Caller.loops]) now)

theorem step_changes (h : SupervisorStep s x s') (now : (s'.task t).changes = true) :
    (s.task t).changes = true ∨ begins x = true := by
  have kept : ∀ {d : TaskId} {p q : TaskPhase}, s.task d = q → (p.changes = true → q.changes = true) →
      (Function.update s.task d p t).changes = true → (s.task t).changes = true := by
    intro d p q here same now
    exact moved_back (P := fun p => p.changes = true) here same now
  cases h with
  | change => exact Or.inr rfl
  | @loop name d d' here new =>
    simp only [Supervisor.setTask] at now
    by_cases eq : t = d
    · subst eq
      rw [Function.update_self] at now
      cases now
    · rw [Function.update_of_ne eq] at now
      exact Or.inl (kept new (by simp [TaskPhase.changes]) now)
  | @spawned d u b st token c here =>
    simp only [Supervisor.setTask, startChild_task] at now
    refine Or.inl (kept here ?_ now)
    cases u <;> simp [Caller.succeeded, TaskPhase.changes]
  | @inserted spec d b here => exact Or.inl (kept here (by simp [TaskPhase.changes]) now)
  | stopWaitFailed here =>
    simp only [Supervisor.setTask, dropChild_task] at now
    exact Or.inl (kept here (by simp [TaskPhase.changes]) now)
  | collect =>
    simp only [Supervisor.setApp, dropChild_task] at now
    exact Or.inl now
  | register | exit | die | hello => exact Or.inl now
  | startResident here | residentGet here | residentGone here | spawnLock here | waitLock here
  | waitNone here | waited here | waitFailed here | wakeResting here | wakeFailing here
  | issue here | spawnFailed here | ensureFailed here | ensureUp here | ensureGet here
  | ensureMissing here | ensureLock here | running here | absent here | tryWaitFailed here
  | known here | unknownReplace here | unknownUnregister here | stopGet here
  | stopMissing here | take here | takeNone here | kill here | killFailed here
  | killWaitFailed here | killed here | stopped here | removedReplace here
  | removedUnregister here =>
    exact Or.inl (kept here (by simp [TaskPhase.changes]) now)

theorem change_begun (run : SupervisorRun endpoint acts s) (now : (s.task t).changes = true) :
    ∃ x ∈ acts, begins x = true :=
  event_of_gained (fun x => begins x = true) (p := fun s => (s.task t).changes = true)
    (by simp [Supervisor.new, TaskPhase.changes]) (fun _ _ _ step now => step_changes step now)
    run now

theorem loop_started (run : SupervisorRun endpoint acts s)
    (now : (s.task t).loops = some service) :
    ∃ x ∈ acts, startsResident x = some service ∨ begins x = true := by
  induction run with
  | nil => cases now
  | @snoc acts s s' x before last ih =>
    rcases step_loops last now with old | rfl | ⟨d, rfl, here⟩
    · obtain ⟨y, mem, found⟩ := ih old
      exact ⟨y, List.mem_append_left _ mem, found⟩
    · exact ⟨_, List.mem_append_right _ List.mem_cons_self, Or.inl rfl⟩
    · obtain ⟨y, mem, found⟩ := change_begun before (t := d) (by rw [here]; rfl)
      exact ⟨y, List.mem_append_left _ mem, Or.inr found⟩

theorem first_unlooped (run : SupervisorRun endpoint acts s)
    (started : StartedOnce (acts ++ [x])) (starts : startsResident x = some service) :
    (s.task t).loops ≠ some service := by
  intro loops
  obtain ⟨y, mem, found⟩ := loop_started run loops
  have apart := (List.pairwise_append.mp started).2.2 y mem x (by simp)
  rcases apart with none | ⟨quiet, other⟩
  · rw [starts] at none
    cases none
  · rcases found with same | begun
    · exact other (same.trans starts.symm)
    · rw [quiet] at begun
      cases begun

theorem one_loop_step (run : SupervisorRun endpoint acts s)
    (started : StartedOnce (acts ++ [x])) (h : SupervisorStep s x s') (clear : Unlooped s x)
    (one : OneLoop s) : OneLoop s' := by
  have fresh : ∀ {service t t'}, (x = .startResident service t ∨
      ∃ d, x = .loop d t ∧ s.task d = .loop service) → (s.task t').loops ≠ some service := by
    rintro service t t' (rfl | ⟨d, rfl, here⟩)
    · exact first_unlooped run started rfl
    · exact clear service t' here
  have same : ∀ {service t t'}, (x = .startResident service t ∨
      ∃ d, x = .loop d t ∧ s.task d = .loop service) → (x = .startResident service t' ∨
      ∃ d, x = .loop d t' ∧ s.task d = .loop service) → t = t' := by
    rintro service t t' (rfl | ⟨d, rfl, _⟩) (label | ⟨d', label, _⟩) <;> cases label <;> rfl
  intro service t t' loops loops'
  rcases step_loops h loops with old | new
  · rcases step_loops h loops' with old' | new'
    · exact one service t t' old old'
    · exact absurd old (fresh new')
  · rcases step_loops h loops' with old' | new'
    · exact absurd old' (fresh new)
    · exact same new new'

/-- While no loop is started beside another one, every service has at most one. -/
theorem one_loop
    (run : Run (Guarded SupervisorStep Unlooped) (Supervisor.new endpoint) acts s)
    (started : StartedOnce acts) : OneLoop s := by
  induction run with
  | nil =>
    intro service t t' loops
    cases loops
  | snoc before last ih =>
    have earlier := (List.pairwise_append.mp started).1
    exact one_loop_step (guarded_run before) started last.1 last.2 (ih earlier)

/-- A loop started beside another one makes two. -/
theorem second_loop (h : SupervisorStep s x s') (left : ¬ Unlooped s x) : ¬ OneLoop s' := by
  intro one
  cases h with
  | @loop service d d' here new =>
    simp only [Unlooped, not_forall, not_not] at left
    obtain ⟨name, t, here', loops⟩ := left
    rw [here] at here'
    cases here'
    have apart : t ≠ d := by
      rintro rfl
      rw [here] at loops
      cases loops
    have older : t ≠ d' := by
      rintro rfl
      rw [new] at loops
      cases loops
    have ne : d' ≠ d := by
      rintro rfl
      rw [here] at new
      cases new
    refine older (one service t d' ?_ ?_)
    · simpa [Supervisor.setTask, apart, older] using loops
    · simp [Supervisor.setTask, ne, TaskPhase.loops]
  | _ => exact left trivial

def creates : SupervisorAct → Option AppId
  | .register _ a => some a
  | .inserted _ _ a => some a
  | _ => none

theorem step_creates (h : SupervisorStep s x s') (now : s'.app a ≠ none) :
    s.app a ≠ none ∨ creates x = some a := by
  have other : ∀ {b : AppId} {old new : Option AppState}, s.app b = old →
      (old = none → new = none) → Function.update s.app b new a ≠ none → s.app a ≠ none := by
    intro b old new found same now
    exact moved_back (P := (· ≠ none)) found (mt same) now
  have inserted : ∀ {b : AppId} {new : Option AppState}, Function.update s.app b new a ≠ none →
      s.app a ≠ none ∨ some b = some a := by
    intro b new now
    by_cases eq : a = b
    · exact Or.inr (by rw [eq])
    · rw [Function.update_of_ne eq] at now
      exact Or.inl now
  cases h with
  | register => exact inserted now
  | inserted => exact inserted now
  | waited _ _ found => exact Or.inl (other found (by simp) now)
  | waitFailed _ found => exact Or.inl (other found (by simp) now)
  | spawnFailed _ found => exact Or.inl (other found (by simp) now)
  | take _ _ found => exact Or.inl (other found (by simp) now)
  | spawned _ found =>
    simp only [Supervisor.setTask, Supervisor.startChild, Supervisor.setApp, dropChild_app] at now
    exact Or.inl (other found (by simp) now)
  | collect =>
    simp only [Supervisor.setApp, dropChild_app] at now
    exact Or.inl (other rfl (fun _ => rfl) now)
  | stopWaitFailed =>
    simp only [Supervisor.setTask, dropChild_app] at now
    exact Or.inl now
  | _ => exact Or.inl now

theorem app_created (run : SupervisorRun endpoint acts s) (found : s.app a ≠ none) :
    ∃ x ∈ acts, creates x = some a :=
  event_of_gained (fun x => creates x = some a) (p := fun s => s.app a ≠ none)
    (by simp [Supervisor.new]) (fun _ _ _ step now => step_creates step now) run found

def restActs : List SupervisorAct :=
  startActs ++ [SupervisorAct.exit 0 true, .waitLock 0 0 (some 0), .waited 0 0 true (Duration.fromSecs 1)]

theorem rested : ∃ s st, SupervisorRun "bus" restActs s ∧ Alone s (.resting "video" 0) st ∧
    st.child = some 0 ∧ s.state 0 = some (.exited true) ∧ s.child 1 = none := by
  obtain ⟨s, run, alone, up, fresh⟩ := started
  have run := run.snoc (@SupervisorStep.exit s 0 true up)
  have finished : (s.setState 0 (.exited true)).state 0 = some (.exited true) := setState_state up
  have alone : Alone (s.setState 0 (.exited true)) _ _ :=
    ⟨alone.here, alone.others, alone.listed, alone.found⟩
  have full : (s.setState 0 (.exited true)).slot 0 = some 0 := by
    simp [Supervisor.slot, alone.found]
  have run := run.snoc (.waitLock alone.here (alone_free alone rfl) full)
  have alone := alone_moves alone (.waiting "video" 0 0)
  have run := run.snoc (@SupervisorStep.waited _ "video" 0 0 0 _ true _ alone.here finished
    alone.found rfl)
  refine ⟨_, _, run, ⟨setTask_here _ _ _, ?_, alone.listed, rfl⟩, rfl, finished, ?_⟩
  · intro t ne
    rw [← alone.others t ne]
    exact Function.update_of_ne ne _ _
  · simp [Supervisor.setTask, Supervisor.setApp, Supervisor.setState, fresh]

structure Beside (s : Supervisor) (p q : TaskPhase) (st : AppState) : Prop where
  here : s.task 0 = p
  beside : s.task 1 = q
  others : ∀ t, t ≠ 0 → t ≠ 1 → s.task t = .unused
  listed : s.apps "video" = some 0
  found : s.app 0 = some st

def stopActs (p : Purpose) : List SupervisorAct :=
  [.change p 1, .contains 1 true, .stopGet 1 (some 0), .take 1 0 (some 0), .killFailed 1 0,
    .stopped 1 0]

theorem stops {st : AppState} {p : Purpose} (alone : Alone s (.resting "video" 0) st)
    (service : p.service = "video") (full : st.child = some 0)
    (finished : s.state 0 = some (.exited true)) : ∃ s', Run SupervisorStep s (stopActs p) s' ∧
      Beside s' (.resting "video" 0) (.remove p) { st with child := none } ∧
      s'.child = s.child := by
  have listed : s.apps p.service = some 0 := by
    rw [service]
    exact alone.listed
  have run := run_single (@SupervisorStep.change s p 1 (alone.others 1 (by decide)))
  have run := run.snoc (.known (setTask_here _ _ _) listed)
  rw [setTask_setTask] at run
  have run := run.snoc (.stopGet (setTask_here _ _ _) listed)
  rw [setTask_setTask] at run
  have run := run.snoc (.take (setTask_here _ _ _) (setTask_free (alone_free alone rfl) rfl)
    alone.found full)
  have run := run.snoc (.killFailed (setTask_here _ _ _))
  rw [setTask_setTask] at run
  have run := run.snoc (@SupervisorStep.stopped _ p 1 0 0 true (setTask_here _ _ _) finished)
  rw [setTask_setTask] at run
  refine ⟨_, run, ⟨?_, setTask_here _ _ _, ?_, alone.listed, rfl⟩, rfl⟩
  · rw [← alone.here]
    rfl
  · intro t ne other
    rw [← alone.others t ne]
    simp [Supervisor.setTask, Supervisor.setApp, other]

def swapActs : List SupervisorAct :=
  restActs ++ stopActs (.replace videoSpec) ++ [SupervisorAct.removed 1 (.replace videoSpec),
    .inserted 1 videoSpec 1]

theorem replaced : ∃ s, SupervisorRun "bus" swapActs s ∧ s.task 0 = .resting "video" 0 ∧
    s.task 1 = .loop "video" ∧ s.task 2 = .unused := by
  obtain ⟨s, st, run, alone, full, finished, _⟩ := rested
  obtain ⟨s', stop, beside, _⟩ := @stops _ _ (.replace videoSpec) alone rfl full finished
  have run := run_append run stop
  have quiet : ∀ x ∈ restActs ++ stopActs (.replace videoSpec), creates x ≠ some 1 := by decide
  have new : s'.app 1 = none := by
    by_contra found
    obtain ⟨x, mem, created⟩ := app_created run found
    exact quiet x mem created
  have run := run.snoc (.removedReplace beside.beside)
  have run := run.snoc (@SupervisorStep.inserted _ videoSpec 1 1 (setTask_here _ _ _) new)
  refine ⟨_, run, ?_, setTask_here _ _ _, ?_⟩
  · rw [← beside.here]
    rfl
  · rw [← beside.others 2 (by decide) (by decide)]
    rfl

/-- The old loop and the loop of the new spec are both live. -/
theorem replaced_app_has_two_loops : ¬ ∀ acts s, SupervisorRun "bus" acts s →
    StartedOnce acts → OneLoop s := by
  intro claim
  obtain ⟨s, run, rests, starts, new⟩ := replaced
  have step := @SupervisorStep.loop s "video" 1 2 starts new
  refine second_loop step ?_ (claim _ _ (run.snoc step) (by decide))
  intro clear
  exact clear "video" 0 starts (by rw [rests]; rfl)

def audioSpec : AppSpec := { videoSpec with service := "audio" }

def joinActs : List SupervisorAct :=
  [.register audioSpec 1, .startResident "audio" 2, .change (.replace videoSpec) 1,
    .contains 1 false, .inserted 1 videoSpec 0]

theorem joining : ∃ s, SupervisorRun "bus" joinActs s ∧ s.task 1 = .loop "video" ∧
    s.task 2 = .resident "audio" ∧ ∀ t, t ≠ 1 → t ≠ 2 → s.task t = .unused := by
  have run := run_single (@SupervisorStep.register (Supervisor.new "bus") audioSpec 1 rfl)
  have run := run.snoc (@SupervisorStep.startResident _ "audio" 2 1 _ rfl rfl rfl rfl)
  have run := run.snoc (@SupervisorStep.change _ (.replace videoSpec) 1 rfl)
  have run := run.snoc (@SupervisorStep.unknownReplace _ videoSpec 1 (setTask_here _ _ _) rfl)
  have run := run.snoc (@SupervisorStep.inserted _ videoSpec 1 0 (setTask_here _ _ _) rfl)
  refine ⟨_, run, setTask_here _ _ _, rfl, ?_⟩
  intro t caller other
  simp [Supervisor.setTask, Supervisor.insertApp, Supervisor.setApp, caller, other]
  rfl

theorem started_once_one_loop : ∃ s, (s.task 0).loops = some "video" ∧
    (s.task 2).loops = some "audio" ∧ OneLoop s := by
  obtain ⟨s, run, starts, loops, others⟩ := joining
  have step := @SupervisorStep.loop s "video" 1 0 starts (others 0 (by decide) (by decide))
  have alone : Unlooped s (.loop 1 0) := by
    intro service d here
    rw [starts] at here
    cases here
    by_cases caller : d = 1
    · rw [caller, starts]
      simp [TaskPhase.loops]
    · by_cases other : d = 2
      · rw [other, loops]
        simp [TaskPhase.loops]
      · rw [others d caller other]
        simp [TaskPhase.loops]
  have clear := run_guarded (g := Unlooped) run (by simp [joinActs, Unlooped])
  refine ⟨_, rfl, ?_, one_loop (clear.snoc ⟨step, alone⟩) (by decide)⟩
  have still : ((s.setTask 0 (.resident "video")).setTask 1 (.done (.ok ()))).task 2 =
      .resident "audio" := loops
  rw [still]
  rfl

end TokimoSupervisor

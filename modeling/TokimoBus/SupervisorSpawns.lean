import TokimoBus.SupervisorLock

/-!
When `spawn_once` runs. It puts its child into the slot whatever the slot holds, and a
child that is still running is killed when it is dropped. `ensure_up` looks at the child
before it spawns; `run_resident` does not look, so that all depends on what it finds in
the slot when it gets the mutex.
-/
namespace TokimoSupervisor
open TokimoFrame LabelledRuns
variable {s s' : Supervisor} {x : SupervisorAct} {acts : List SupervisorAct} {t t' : TaskId}
  {a a' : AppId} {c c' : ChildId} {endpoint service token : String} {u : Caller}

def TaskPhase.spawns : TaskPhase → Option AppId
  | .spawning _ a | .starting _ a _ => some a
  | _ => none

def Vacant (s : Supervisor) (a : AppId) : Prop :=
  ∀ c, s.slot a = some c → ∃ success, s.state c = some (.exited success)

def spawnStep : SupervisorAct → Option AppId
  | .issue _ a _ => some a
  | .spawned _ a _ => some a
  | _ => none

/-- No running child is in the way of `spawn_once`. -/
structure SpawnsSpare (s : Supervisor) : Prop where
  vacant : ∀ t a, (s.task t).spawns = some a → Vacant s a
  kept : ∀ x s' a, SupervisorStep s x s' → spawnStep x = some a →
    (∀ c, s.slot a = some c → ¬ s.Alive c) ∧ ∀ c, s.Alive c → s'.Alive c

/-- The condition under which `run_resident` finds no running child to overwrite. -/
def FindsVacant (s : Supervisor) : SupervisorAct → Prop
  | .spawnLock _ a => Vacant s a
  | _ => True

theorem setState_other {p : ProcessState} (ne : c ≠ c') : (s.setState c' p).state c = s.state c := by
  simp [Supervisor.state, Supervisor.setState, ne]

theorem dropChild_exited {o : Option ChildId} {success : Bool}
    (finished : s.state c = some (.exited success)) :
    (s.dropChild o).state c = some (.exited success) := by
  cases o with
  | none => exact finished
  | some c' =>
    simp only [Supervisor.dropChild]
    split
    · rename_i up
      rw [setState_other, finished]
      rintro rfl
      rw [Supervisor.Alive, finished] at up
      cases up
    · exact finished

theorem exited_step (h : SupervisorStep s x s') {success : Bool}
    (finished : s.state c = some (.exited success)) : s'.state c = some (.exited success) := by
  have running : ∀ {d : ChildId} {p : ProcessState}, s.state d = some p →
      (∀ b, p ≠ .exited b) → c ≠ d := by
    rintro d p known other rfl
    rw [finished] at known
    cases known
    exact other success rfl
  cases h with
  | exit up => exact (setState_other (running up (by simp))).trans finished
  | die signalled => exact (setState_other (running signalled (by simp))).trans finished
  | kill _ up => exact (setState_other (running up (by simp))).trans finished
  | @spawned t u a st token c' here found new =>
    have ne : c ≠ c' := by
      rintro rfl
      simp [Supervisor.state, new] at finished
    have kept := dropChild_exited (o := st.child) finished
    simpa [Supervisor.state, Supervisor.setTask, Supervisor.startChild, ne] using kept
  | stopWaitFailed => exact dropChild_exited finished
  | collect => exact dropChild_exited finished
  | _ => exact finished

theorem spawns_holds {p : TaskPhase} (spawns : p.spawns = some a) : p.holds = some a := by
  cases p <;> simp_all [TaskPhase.spawns, TaskPhase.holds]

theorem step_spawns (h : SupervisorStep s x s') (now : (s'.task t).spawns = some a) :
    (s.task t).spawns = some a ∨ x = .spawnLock t a ∨ x = .absent t a ∧ Vacant s a := by
  cases h with
  | spawnLock here =>
    rcases moved_to now with old | ⟨rfl, same⟩
    · exact Or.inl old
    · cases same
      exact Or.inr (Or.inl rfl)
  | absent here down =>
    rcases moved_to now with old | ⟨rfl, same⟩
    · exact Or.inl old
    · cases same
      exact Or.inr (Or.inr ⟨rfl, down⟩)
  | issue here => exact Or.inl (moved_from here (by simp [TaskPhase.spawns]) now)
  | @spawned d u b st token c here =>
    simp only [Supervisor.setTask, startChild_task] at now
    refine Or.inl (moved_from here ?_ now)
    cases u <;> simp [Caller.succeeded, TaskPhase.spawns]
  | @inserted spec d b here =>
    refine Or.inl (moved_from here ?_ now)
    cases spec.lifecycle <;> simp [TaskPhase.spawns]
  | @loop service d d' here new =>
    simp only [Supervisor.setTask] at now
    rcases moved_to now with old | ⟨_, same⟩
    · exact Or.inl (moved_from new (by simp [TaskPhase.spawns]) old)
    · cases same
  | stopWaitFailed here =>
    simp only [Supervisor.setTask, dropChild_task] at now
    exact Or.inl (moved_from here (by simp [TaskPhase.spawns]) now)
  | collect =>
    simp only [Supervisor.setApp, dropChild_task] at now
    exact Or.inl now
  | register | exit | die | hello => exact Or.inl now
  | startResident here | residentGet here | residentGone here | waitLock here | waitNone here
  | waited here | waitFailed here | wakeResting here | wakeFailing here | spawnFailed here
  | ensureFailed here | ensureUp here | ensureGet here | ensureMissing here | ensureLock here
  | running here | tryWaitFailed here | change here | known here | unknownReplace here
  | unknownUnregister here | stopGet here | stopMissing here | take here | takeNone here
  | kill here | killFailed here | killWaitFailed here | killed here | stopped here
  | removedReplace here | removedUnregister here =>
    exact Or.inl (moved_from here (by simp [TaskPhase.spawns]) now)

theorem spawned_leaves (h : SupervisorStep s (.spawned t a c) s') :
    (s'.task t).spawns = none := by
  cases h with
  | @spawned _ u =>
    rw [setTask_here]
    cases u <;> rfl

theorem vacant_step (sound : Sound s) (h : SupervisorStep s x s') (clear : FindsVacant s x)
    (known : ∀ t a, (s.task t).spawns = some a → Vacant s a)
    (now : (s'.task t).spawns = some a) : Vacant s' a := by
  have found : Vacant s a ∧ ((s.task t).spawns = some a ∨ s'.slot a = s.slot a) := by
    rcases step_spawns h now with old | rfl | ⟨rfl, vacant⟩
    · exact ⟨known t a old, Or.inl old⟩
    · refine ⟨clear, Or.inr ?_⟩
      cases h
      rfl
    · refine ⟨vacant, Or.inr ?_⟩
      cases h
      rfl
  obtain ⟨vacant, still⟩ := found
  have exited : ∀ d, s.slot a = some d → ∃ success, s'.state d = some (.exited success) := by
    intro d full
    obtain ⟨success, finished⟩ := vacant d full
    exact ⟨success, exited_step h finished⟩
  intro d full
  rcases still with old | same
  · have held := spawns_holds old
    have change := step_slot h a
    generalize s'.slot a = y at change full
    cases change with
    | kept => exact exited d full
    | @filled t' c' held' =>
      obtain rfl := sound.mutex t t' a held held'
      rw [spawned_leaves h] at now
      cases now
    | taken free => exact absurd held (free t)
    | collected unused => exact absurd (holds_arc held) (unused.2 t)
  · rw [same] at full
    exact exited d full

theorem vacant_spared (h : SupervisorStep s x s') (spawns : spawnStep x = some a) :
    ∃ t, (s.task t).spawns = some a := by
  cases h with
  | @issue t u b st token here =>
    cases spawns
    exact ⟨t, by rw [here]; rfl⟩
  | @spawned t u b st token c here =>
    cases spawns
    exact ⟨t, by rw [here]; rfl⟩
  | _ => cases spawns

/-- `spawn_once` on a vacant slot ends no process. -/
theorem vacant_ends (h : SupervisorStep s x s') (spawns : spawnStep x = some a)
    (vacant : Vacant s a) : (∀ c, s.slot a = some c → ¬ s.Alive c) ∧
      ∀ c, s.Alive c → s'.Alive c := by
  have idle : ∀ c, s.slot a = some c → ¬ s.Alive c := by
    intro c full up
    obtain ⟨success, finished⟩ := vacant c full
    rw [up] at finished
    cases finished
  refine ⟨idle, fun c up => ?_⟩
  rcases step_ends h up with still | ended
  · exact still
  · cases ended with
    | replaced held blind full =>
      cases spawns
      exact absurd up (idle c full)
    | _ => cases spawns

/-- In a run in which `run_resident` finds every slot vacant, no running child is overwritten. -/
theorem spawns_spare
    (run : Run (Guarded SupervisorStep FindsVacant) (Supervisor.new endpoint) acts s) :
    SpawnsSpare s := by
  have vacant : ∀ t a, (s.task t).spawns = some a → Vacant s a := by
    induction run with
    | nil =>
      intro t a spawns
      cases spawns
    | snoc before last ih =>
      intro t a spawns
      exact vacant_step (sound ⟨_, guarded_run before⟩) last.1 last.2 ih spawns
  constructor
  · exact vacant
  · intro x s' a step spawns
    obtain ⟨t, inside⟩ := vacant_spared step spawns
    exact vacant_ends step spawns (vacant t a inside)

theorem occupied_overwritten (h : SupervisorStep s (.spawnLock t a) s')
    (left : ¬ FindsVacant s (.spawnLock t a)) : ¬ SpawnsSpare s' := by
  intro spare
  cases h with
  | spawnLock here => exact left (spare.vacant t a (by rw [setTask_here]; rfl))

def ensureActs : List SupervisorAct :=
  [.register videoSpec 0, .ensureUp "video" 1, .ensureGet 1 (some 0), .ensureLock 1 0,
    .absent 1 0, .issue 1 0 "token", .spawned 1 0 0]

theorem ensured : ∃ s, Run (Guarded SupervisorStep FindsVacant) (Supervisor.new "bus")
    ensureActs s ∧ (∀ t, t ≠ 1 → s.task t = .unused) ∧ s.task 1 = .done (.ok ()) ∧
    s.apps "video" = some 0 ∧ s.app 0 = some { AppState.new videoSpec with child := some 0 } ∧
    s.Alive 0 := by
  let start := (Supervisor.new "bus").insertApp 0 videoSpec
  have free : start.Free 0 := by
    intro t holds
    cases holds
  have run := run_single (@SupervisorStep.register (Supervisor.new "bus") videoSpec 0 rfl)
  have run := run.snoc (@SupervisorStep.ensureUp _ "video" 1 rfl)
  have run := run.snoc (@SupervisorStep.ensureGet _ "video" 1 0 (setTask_here _ _ _) rfl)
  rw [setTask_setTask] at run
  have run := run.snoc (.ensureLock (setTask_here _ _ _) (setTask_free free rfl))
  rw [setTask_setTask] at run
  have run := run.snoc (@SupervisorStep.absent _ 1 0 (setTask_here _ _ _) (by
    intro c full
    cases full))
  rw [setTask_setTask] at run
  have run := run.snoc (@SupervisorStep.issue _ _ _ _ _ "token" (setTask_here _ _ _) rfl)
  have run := run.snoc (@SupervisorStep.spawned _ 1 _ 0 _ _ 0 (setTask_here _ _ _) rfl rfl)
  refine ⟨_, run_guarded run (by simp [ensureActs, FindsVacant]), ?_, setTask_here _ _ _, rfl, rfl, rfl⟩
  intro t ne
  simp [Supervisor.setTask, Supervisor.setToken, Supervisor.insertApp, Supervisor.setApp, ne]
  rfl

theorem loop_spared {st : AppState}
    (run : Run (Guarded SupervisorStep FindsVacant) (Supervisor.new "bus") acts s)
    (alone : Alone s (.resident "video") st) (vacant : Vacant s 0) (new : s.child c = none) :
    ∃ acts' s', Run (Guarded SupervisorStep FindsVacant) (Supervisor.new "bus") acts' s' ∧
      Alone s' (.waitLock "video" 0) { st with child := some c } ∧ s'.Alive c ∧
      ∀ d, d ≠ c → s.child d = none → s'.child d = none := by
  have run := run.snoc ⟨SupervisorStep.residentGet alone.here alone.listed, trivial⟩
  have alone := alone_moves alone (.spawnLock "video" 0)
  have run := run.snoc ⟨.spawnLock alone.here (alone_free alone rfl), vacant⟩
  have alone := alone_moves alone (.spawning (.resident "video") 0)
  obtain ⟨s', spawns, rest⟩ := locked_spawns alone new
  exact ⟨_, s', run_append run (run_guarded spawns (by simp [FindsVacant])), rest⟩

theorem restarted_spared : ∃ s, s.task 0 = .waitLock "video" 0 ∧ s.slot 0 = some 1 ∧ s.Alive 1 ∧
    SpawnsSpare s := by
  obtain ⟨s, run, alone, none⟩ := ready
  have empty : Vacant s 0 := by
    intro c full
    simp [Supervisor.slot, alone.found, AppState.new] at full
  obtain ⟨_, s, run, alone, up, fresh⟩ :=
    loop_spared (run_guarded run (by simp [readyActs, FindsVacant])) alone empty (none 0)
  have run := run.snoc ⟨@SupervisorStep.exit s 0 true up, trivial⟩
  have finished : (s.setState 0 (.exited true)).state 0 = some (.exited true) := setState_state up
  have alone : Alone (s.setState 0 (.exited true)) _ _ :=
    ⟨alone.here, alone.others, alone.listed, alone.found⟩
  have full : (s.setState 0 (.exited true)).slot 0 = some 0 := by
    simp [Supervisor.slot, alone.found]
  have run := run.snoc ⟨.waitLock alone.here (alone_free alone rfl) full, trivial⟩
  obtain ⟨v, rests, again, children⟩ := loop_rests (alone_moves alone (.waiting "video" 0 0)) finished
  have run := run_append run (run_guarded rests (by simp [FindsVacant]))
  have vacant : Vacant v 0 := by
    intro c held
    simp only [Supervisor.slot, again.found, Option.bind_some, Option.some.injEq] at held
    subst held
    refine ⟨true, ?_⟩
    rw [Supervisor.state, children]
    exact finished
  have unborn : v.child 1 = .none := by
    rw [children]
    simp [Supervisor.setTask, Supervisor.setState, fresh 1 (by decide) (none 1)]
  obtain ⟨_, s', run, last, up, _⟩ := loop_spared run again vacant unborn
  exact ⟨s', last.here, by simp [Supervisor.slot, last.found], up, spawns_spare run⟩

/-- `start_all_resident` is called after an `ensure_up` of the same app. -/
theorem running_child_overwritten :
    ¬ ∀ acts s, SupervisorRun "bus" acts s → SpawnsSpare s := by
  intro claim
  obtain ⟨s, run, unused, ready, listed, found, up⟩ := ensured
  have free : s.Free 0 := by
    intro t holds
    by_cases eq : t = 1
    · rw [eq, ready] at holds
      cases holds
    · rw [unused t eq] at holds
      cases holds
  have run := (guarded_run run).snoc
    (@SupervisorStep.startResident s "video" 0 0 _ (unused 0 (by decide)) listed found rfl)
  have run := run.snoc (.residentGet (setTask_here _ _ _) listed)
  rw [setTask_setTask] at run
  have step := SupervisorStep.spawnLock (setTask_here s 0 (.spawnLock "video" 0))
    (setTask_free free rfl)
  refine occupied_overwritten step ?_ (claim _ _ (run.snoc step))
  intro vacant
  obtain ⟨success, finished⟩ := vacant 0 (by simp [Supervisor.slot, Supervisor.setTask, found])
  have still : s.state 0 = some (.exited success) := finished
  rw [up] at still
  cases still

end TokimoSupervisor

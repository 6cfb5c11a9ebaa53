import TokimoBus.Supervisor

/-!
What a step of the supervisor can do to the child mutexes, the child slots and the
processes. A mutex has one holder, a child one owner (a slot, or the task that took it
out), and a process that has ended stays so.
-/
namespace TokimoSupervisor
open TokimoFrame LabelledRuns
variable {s s' : Supervisor} {x : SupervisorAct} {t t' : TaskId} {a a' : AppId} {c c' : ChildId}
  {endpoint : String}

abbrev SupervisorReachable (endpoint : String) (s : Supervisor) : Prop :=
  Reachable SupervisorStep (Supervisor.new endpoint) s

@[simp] theorem dropChild_app (s : Supervisor) (o : Option ChildId) :
    (s.dropChild o).app = s.app := by
  cases o with
  | none => rfl
  | some c =>
    simp only [Supervisor.dropChild]
    split <;> rfl

@[simp] theorem dropChild_task (s : Supervisor) (o : Option ChildId) :
    (s.dropChild o).task = s.task := by
  cases o with
  | none => rfl
  | some c =>
    simp only [Supervisor.dropChild]
    split <;> rfl

@[simp] theorem dropChild_apps (s : Supervisor) (o : Option ChildId) :
    (s.dropChild o).apps = s.apps := by
  cases o with
  | none => rfl
  | some c =>
    simp only [Supervisor.dropChild]
    split <;> rfl

@[simp] theorem startChild_task (s : Supervisor) (a : AppId) (st : AppState) (c : ChildId)
    (token : String) : (s.startChild a st c token).task = s.task := by
  simp [Supervisor.startChild, Supervisor.setApp]

@[simp] theorem startChild_apps (s : Supervisor) (a : AppId) (st : AppState) (c : ChildId)
    (token : String) : (s.startChild a st c token).apps = s.apps := by
  simp [Supervisor.startChild, Supervisor.setApp]

def locks : SupervisorAct → Option (TaskId × AppId)
  | .spawnLock t a | .waitLock t a (some _) | .ensureLock t a | .take t a (some _) => some (t, a)
  | _ => none

def TaskPhase.view : TaskPhase → Option (AppId × Option ChildId)
  | .waiting _ a c => some (a, some c)
  | .stopping _ a _ | .killing _ a _ | .stopWait _ a _ => some (a, none)
  | _ => none

def TaskPhase.waitsFor : TaskPhase → Option ChildId
  | .waiting _ _ c | .killing _ _ c | .stopWait _ _ c => some c
  | _ => none

def StartsWait (t : TaskId) (c : ChildId) (x : SupervisorAct) : Prop :=
  (∃ a, x = .waitLock t a (some c)) ∨ x = .kill t c ∨ x = .killFailed t c

/-- How task `t` may go from phase `p` to phase `q` in the step labelled `x`. -/
structure Shift (s s' : Supervisor) (x : SupervisorAct) (t : TaskId) (p q : TaskPhase) : Prop where
  holds : ∀ a, q.holds = some a → p.holds = some a ∨ locks x = some (t, a) ∧ s.Free a
  taken : ∀ c, q.taken = some c →
    p.taken = some c ∨ ∃ a, x = .take t a (some c) ∧ s.slot a = some c
  view : ∀ a y, q.view = some (a, y) →
    p.view = some (a, y) ∨ locks x = some (t, a) ∧ s'.slot a = y
  waits : ∀ c, q.waitsFor = some c → p.waitsFor = some c ∨ StartsWait t c x

theorem shift_refl (p : TaskPhase) : Shift s s' x t p p :=
  ⟨fun _ => Or.inl, fun _ => Or.inl, fun _ _ => Or.inl, fun _ => Or.inl⟩

theorem moved_shift {f : TaskId → TaskPhase} {t d : TaskId} {p q : TaskPhase} (here : f d = q)
    (shift : Shift s s' x d q p) : Shift s s' x t (f t) (Function.update f d p t) := by
  by_cases same : t = d
  · subst same
    rw [Function.update_self, here]
    exact shift
  · rw [Function.update_of_ne same]
    exact shift_refl _

theorem step_shift (h : SupervisorStep s x s') (t : TaskId) :
    Shift s s' x t (s.task t) (s'.task t) := by
  cases h with
  | spawnLock here free | ensureLock here free =>
    refine moved_shift here ?_
    constructor <;> simp [TaskPhase.holds, TaskPhase.taken, TaskPhase.view, TaskPhase.waitsFor,
      locks, free]
  | waitLock here free found =>
    refine moved_shift here ?_
    constructor <;> simp_all [TaskPhase.holds, TaskPhase.taken, TaskPhase.view, TaskPhase.waitsFor,
      locks, Supervisor.slot, Supervisor.setTask, StartsWait]
  | take here free found full =>
    refine moved_shift here ?_
    constructor <;> simp_all [TaskPhase.holds, TaskPhase.taken, TaskPhase.view, TaskPhase.waitsFor,
      locks, Supervisor.slot, Supervisor.setTask, Supervisor.setApp]
  | kill here | killFailed here =>
    refine moved_shift here ?_
    constructor <;> simp [TaskPhase.holds, TaskPhase.taken, TaskPhase.view, TaskPhase.waitsFor,
      StartsWait]
  | @spawned d u a st token c here =>
    simp only [Supervisor.setTask, startChild_task]
    refine moved_shift here ?_
    cases u <;> constructor <;> simp [Caller.succeeded, TaskPhase.holds, TaskPhase.taken,
      TaskPhase.view, TaskPhase.waitsFor]
  | @inserted spec d a here =>
    refine moved_shift here ?_
    cases spec.lifecycle <;> constructor <;> simp [TaskPhase.holds, TaskPhase.taken,
      TaskPhase.view, TaskPhase.waitsFor]
  | @loop service d d' here new =>
    have ne : d ≠ d' := by
      rintro rfl
      rw [here] at new
      cases new
    simp only [Supervisor.setTask]
    by_cases same : t = d
    · subst same
      rw [Function.update_self, here]
      constructor <;> simp [TaskPhase.holds, TaskPhase.taken, TaskPhase.view, TaskPhase.waitsFor]
    · rw [Function.update_of_ne same]
      refine moved_shift new ?_
      constructor <;> simp [TaskPhase.holds, TaskPhase.taken, TaskPhase.view, TaskPhase.waitsFor]
  | startResident here | residentGet here | residentGone here | waitNone here | waited here
  | waitFailed here | wakeResting here | wakeFailing here | issue here | spawnFailed here
  | ensureFailed here | ensureUp here | ensureGet here | ensureMissing here | running here
  | absent here | tryWaitFailed here | change here | known here | unknownReplace here
  | unknownUnregister here | stopGet here | stopMissing here | takeNone here | killWaitFailed here
  | killed here | stopped here | removedReplace here | removedUnregister here =>
    refine moved_shift here ?_
    constructor <;> simp [TaskPhase.holds, TaskPhase.taken, TaskPhase.view, TaskPhase.waitsFor]
  | stopWaitFailed here =>
    simp only [Supervisor.setTask, dropChild_task]
    refine moved_shift here ?_
    constructor <;> simp [TaskPhase.holds, TaskPhase.taken, TaskPhase.view, TaskPhase.waitsFor]
  | collect =>
    simp only [Supervisor.setApp, dropChild_task]
    exact shift_refl _
  | register | exit | die | hello => exact shift_refl _

/-- How a slot may change: its mutex is locked then, or nobody has its `AppState` any more. -/
inductive SlotChange (s : Supervisor) (a : AppId) : SupervisorAct → Option ChildId → Prop where
  | kept {x : SupervisorAct} : SlotChange s a x (s.slot a)
  | filled {t : TaskId} {c : ChildId} (held : (s.task t).holds = some a)
      (blind : (s.task t).view = none) (new : s.child c = none) :
      SlotChange s a (.spawned t a c) (some c)
  | taken {t : TaskId} {c : ChildId} (free : s.Free a) (full : s.slot a = some c) :
      SlotChange s a (.take t a (some c)) none
  | collected (unused : s.Unreferenced a) : SlotChange s a (.collect a) none

theorem slot_of_app (same : s'.app a = s.app a) : s'.slot a = s.slot a := by
  simp [Supervisor.slot, same]

theorem slot_inserted {b : AppId} (spec : AppSpec) (new : s.app b = none) :
    (s.insertApp b spec).slot a = s.slot a := by
  by_cases eq : a = b
  · subst eq
    simp [Supervisor.slot, Supervisor.insertApp, Supervisor.setApp, AppState.new, new]
  · simp [Supervisor.slot, Supervisor.insertApp, Supervisor.setApp, eq]

theorem slot_paused {b : AppId} {st : AppState} (k : Backoff) (found : s.app b = some st) :
    (s.setApp b (some { st with backoff := k })).slot a = s.slot a := by
  by_cases eq : a = b
  · subst eq
    simp [Supervisor.slot, Supervisor.setApp, found]
  · simp [Supervisor.slot, Supervisor.setApp, eq]

theorem step_slot (h : SupervisorStep s x s') (a : AppId) : SlotChange s a x (s'.slot a) := by
  have kept : ∀ {x : SupervisorAct} {y : Option ChildId}, y = s.slot a → SlotChange s a x y := by
    rintro x y rfl
    exact .kept
  cases h with
  | register new => exact kept (slot_inserted _ new)
  | inserted _ new => exact kept (slot_inserted _ new)
  | waited _ _ found => exact kept (slot_paused _ found)
  | waitFailed _ found => exact kept (slot_paused _ found)
  | spawnFailed _ found => exact kept (slot_paused _ found)
  | @spawned t u b st token c here found new =>
    by_cases eq : a = b
    · subst eq
      have filled : ((s.startChild a st c token).setTask t (u.succeeded a)).slot a = some c := by
        simp [Supervisor.slot, Supervisor.setTask, Supervisor.startChild, Supervisor.setApp]
      rw [filled]
      exact .filled (by simp [here, TaskPhase.holds]) (by simp [here, TaskPhase.view]) new
    · apply kept
      simp [Supervisor.slot, Supervisor.setTask, Supervisor.startChild, Supervisor.setApp, eq]
  | @take p t b st c here free found full =>
    by_cases eq : a = b
    · subst eq
      have emptied : ((s.setApp a (some { st with child := none })).setTask t
          (.stopping p a c)).slot a = none := by
        simp [Supervisor.slot, Supervisor.setTask, Supervisor.setApp]
      rw [emptied]
      exact .taken free (by simp [Supervisor.slot, found, full])
    · apply kept
      simp [Supervisor.slot, Supervisor.setTask, Supervisor.setApp, eq]
  | @collect b unused =>
    by_cases eq : a = b
    · subst eq
      have emptied : ((s.dropChild (s.slot a)).setApp a none).slot a = none := by
        simp [Supervisor.slot, Supervisor.setApp]
      rw [emptied]
      exact .collected unused
    · apply kept
      simp [Supervisor.slot, Supervisor.setApp, eq]
  | stopWaitFailed => exact kept (slot_of_app (by simp [Supervisor.setTask]))
  | _ => exact .kept

inductive Ends (s : Supervisor) (c : ChildId) : SupervisorAct → Prop where
  | exit {success : Bool} : Ends s c (.exit c success)
  | kill {t : TaskId} (taken : (s.task t).taken = some c) : Ends s c (.kill t c)
  | replaced {t : TaskId} {a : AppId} {c' : ChildId} (held : (s.task t).holds = some a)
      (blind : (s.task t).view = none) (full : s.slot a = some c) : Ends s c (.spawned t a c')
  | dropped {t : TaskId} (taken : (s.task t).taken = some c) : Ends s c (.waitFailed t c)
  | collected {a : AppId} (unused : s.Unreferenced a) (full : s.slot a = some c) :
      Ends s c (.collect a)

theorem setState_alive {p : ProcessState} (up : s.Alive c) (ne : c ≠ c') :
    (s.setState c' p).Alive c := by
  simpa [Supervisor.Alive, Supervisor.state, Supervisor.setState, ne] using up

theorem dropChild_alive {o : Option ChildId} (up : s.Alive c) (other : o ≠ some c) :
    (s.dropChild o).Alive c := by
  cases o with
  | none => exact up
  | some c' =>
    simp only [Supervisor.dropChild]
    have ne : c ≠ c' := by
      rintro rfl
      exact other rfl
    split
    · exact setState_alive up ne
    · exact up

theorem step_ends (h : SupervisorStep s x s') (up : s.Alive c) : s'.Alive c ∨ Ends s c x := by
  have known : s.child c ≠ none := by
    intro none
    simp [Supervisor.Alive, Supervisor.state, none] at up
  cases h with
  | @exit c' success =>
    by_cases eq : c = c'
    · subst eq
      exact Or.inr .exit
    · exact Or.inl (setState_alive up eq)
  | @die c' signalled =>
    refine Or.inl (setState_alive up ?_)
    rintro rfl
    rw [up] at signalled
    cases signalled
  | @kill p t a c' here =>
    by_cases eq : c = c'
    · subst eq
      exact Or.inr (.kill (by simp [here, TaskPhase.taken]))
    · exact Or.inl (setState_alive up eq)
  | @spawned t u a st token c' here found new =>
    by_cases old : st.child = some c
    · exact Or.inr (.replaced (by simp [here, TaskPhase.holds]) (by simp [here, TaskPhase.view])
        (by simp [Supervisor.slot, found, old]))
    · have ne : c ≠ c' := by
        rintro rfl
        exact known new
      have kept := dropChild_alive up old
      refine Or.inl ?_
      simpa [Supervisor.Alive, Supervisor.state, Supervisor.setTask, Supervisor.startChild, ne]
        using kept
  | @stopWaitFailed p t a c' here =>
    by_cases eq : c = c'
    · subst eq
      exact Or.inr (.dropped (by simp [here, TaskPhase.taken]))
    · exact Or.inl (dropChild_alive up (by simpa using Ne.symm eq))
  | @collect a unused =>
    by_cases full : s.slot a = some c
    · exact Or.inr (.collected unused full)
    · exact Or.inl (dropChild_alive up full)
  | _ => exact Or.inl up

def Over (c : ChildId) (s : Supervisor) : Prop := s.child c ≠ none ∧ ¬ s.Alive c

theorem setState_known {p : ProcessState} (known : s.child c ≠ none) :
    (s.setState c' p).child c ≠ none := by
  by_cases eq : c = c'
  · subst eq
    simpa [Supervisor.setState] using known
  · simpa [Supervisor.setState, eq] using known

theorem dropChild_known {o : Option ChildId} (known : s.child c ≠ none) :
    (s.dropChild o).child c ≠ none := by
  cases o with
  | none => exact known
  | some c' =>
    simp only [Supervisor.dropChild]
    split
    · exact setState_known known
    · exact known

theorem step_known (h : SupervisorStep s x s') (known : s.child c ≠ none) :
    s'.child c ≠ none := by
  cases h with
  | exit | die | kill => exact setState_known known
  | @spawned t u a st token c' here found new =>
    have ne : c ≠ c' := by
      rintro rfl
      exact known new
    simpa [Supervisor.setTask, Supervisor.startChild, ne] using
      dropChild_known (o := st.child) known
  | stopWaitFailed | collect => exact dropChild_known known
  | _ => exact known

theorem setState_over {p : ProcessState} (finished : Over c s) (dead : p ≠ .alive) :
    Over c (s.setState c' p) := by
  refine ⟨setState_known finished.1, ?_⟩
  by_cases eq : c = c'
  · subst eq
    intro up
    simp only [Supervisor.Alive, Supervisor.state, Supervisor.setState, Function.update_self,
      Option.map_map, Option.map_eq_some_iff, Function.comp_apply] at up
    obtain ⟨_, _, same⟩ := up
    exact dead same
  · simpa [Supervisor.Alive, Supervisor.state, Supervisor.setState, eq] using finished.2

theorem dropChild_over {o : Option ChildId} (finished : Over c s) : Over c (s.dropChild o) := by
  cases o with
  | none => exact finished
  | some c' =>
    simp only [Supervisor.dropChild]
    split
    · exact setState_over finished (by simp)
    · exact finished

theorem over_stable (endpoint : String) (c : ChildId) :
    Stable SupervisorStep (Supervisor.new endpoint) (Over c) := by
  intro s x s' _ h finished
  cases h with
  | exit | die | kill => exact setState_over finished (by simp)
  | @spawned t u a st token c' here found new =>
    have ne : c ≠ c' := by
      rintro rfl
      exact finished.1 new
    have kept := dropChild_over (o := st.child) finished
    simpa [Over, Supervisor.Alive, Supervisor.state, Supervisor.setTask, Supervisor.startChild, ne]
      using kept
  | stopWaitFailed | collect => exact dropChild_over finished
  | _ => exact finished

def Supervisor.owns (s : Supervisor) : AppId ⊕ TaskId → Option ChildId
  | .inl a => s.slot a
  | .inr t => (s.task t).taken

structure Sound (s : Supervisor) : Prop where
  mutex : ∀ t t' a, (s.task t).holds = some a → (s.task t').holds = some a → t = t'
  known : ∀ o c, s.owns o = some c → s.child c ≠ none
  unique : ∀ o o' c, s.owns o = some c → s.owns o' = some c → o = o'
  view : ∀ t a y, (s.task t).view = some (a, y) → s.slot a = y

theorem view_holds {p : TaskPhase} {y : Option ChildId} (view : p.view = some (a, y)) :
    p.holds = some a := by
  cases p <;> simp_all [TaskPhase.view, TaskPhase.holds]

theorem holds_arc {p : TaskPhase} (holds : p.holds = some a) : p.arc = some a := by
  cases p <;> simp_all [TaskPhase.holds, TaskPhase.arc]

theorem app_updated {b : AppId} {st st' new : AppState} (found : s.app a = some st)
    (known : s.app b = some st') (same : new.spec = st'.spec) :
    ∃ st', Function.update s.app b (some new) a = some st' ∧ st'.spec = st.spec := by
  by_cases eq : a = b
  · subst eq
    rw [found] at known
    cases known
    exact ⟨new, Function.update_self _ _ _, same⟩
  · exact ⟨st, by rw [Function.update_of_ne eq, found], rfl⟩

theorem app_inserted {b : AppId} {st new : AppState} (found : s.app a = some st)
    (absent : s.app b = none) :
    ∃ st', Function.update s.app b (some new) a = some st' ∧ st'.spec = st.spec := by
  have apart : a ≠ b := by
    rintro rfl
    rw [found] at absent
    cases absent
  exact ⟨st, by rw [Function.update_of_ne apart, found], rfl⟩

theorem spec_step {st : AppState} (h : SupervisorStep s x s') (found : s.app a = some st)
    (kept : x ≠ .collect a) : ∃ st', s'.app a = some st' ∧ st'.spec = st.spec := by
  cases h with
  | register new => exact app_inserted found new
  | inserted _ new => exact app_inserted found new
  | waited _ _ known => exact app_updated found known rfl
  | waitFailed _ known => exact app_updated found known rfl
  | spawnFailed _ known => exact app_updated found known rfl
  | take _ _ known => exact app_updated found known rfl
  | @spawned d u b st' tok c here known new =>
    simp only [Supervisor.setTask, Supervisor.startChild, Supervisor.setApp, dropChild_app]
    exact app_updated found known rfl
  | stopWaitFailed =>
    simp only [Supervisor.setTask, dropChild_app]
    exact ⟨st, found, rfl⟩
  | @collect b unused =>
    have apart : a ≠ b := by
      rintro rfl
      exact kept rfl
    refine ⟨st, ?_, rfl⟩
    simp only [Supervisor.setApp, dropChild_app]
    rw [Function.update_of_ne apart, found]
  | _ => exact ⟨st, found, rfl⟩

theorem spec_held {st : AppState} (h : SupervisorStep s x s') (found : s.app a = some st)
    (held : (s.task t).arc = some a) : ∃ st', s'.app a = some st' ∧ st'.spec = st.spec := by
  apply spec_step h found
  rintro rfl
  cases h with
  | collect unused => exact unused.2 t held

theorem spec_listed {st : AppState} {service : String} (h : SupervisorStep s x s')
    (found : s.app a = some st) (listed : s.apps service = some a) :
    ∃ st', s'.app a = some st' ∧ st'.spec = st.spec := by
  apply spec_step h found
  rintro rfl
  cases h with
  | collect unused => exact unused.1 service listed

theorem take_empties {o : Option ChildId} (h : SupervisorStep s (.take t a o) s') :
    s'.slot a = none := by
  cases h with
  | take => simp [Supervisor.slot, Supervisor.setTask, Supervisor.setApp]
  | takeNone _ _ empty => exact empty

theorem spawned_known (h : SupervisorStep s (.spawned t a c) s') : s'.child c ≠ none := by
  cases h with
  | spawned => simp [Supervisor.setTask, Supervisor.startChild]

theorem step_owns (h : SupervisorStep s x s') {o : AppId ⊕ TaskId} (now : s'.owns o = some c) :
    s.owns o = some c ∨ (∃ t a, x = .spawned t a c ∧ o = .inl a ∧ s.child c = none) ∨
      ∃ t a, x = .take t a (some c) ∧ o = .inr t ∧ s.slot a = some c := by
  cases o with
  | inl a =>
    have change := step_slot h a
    have full : s'.slot a = some c := now
    generalize s'.slot a = y at change full
    cases change with
    | kept => exact Or.inl full
    | filled held blind new =>
      cases full
      exact Or.inr (Or.inl ⟨_, a, rfl, rfl, new⟩)
    | taken | collected => cases full
  | inr t =>
    rcases (step_shift h t).taken c now with old | ⟨a, label, full⟩
    · exact Or.inl old
    · exact Or.inr (Or.inr ⟨t, a, label, rfl, full⟩)

theorem mutex_step (h : SupervisorStep s x s')
    (mutex : ∀ t t' a, (s.task t).holds = some a → (s.task t').holds = some a → t = t')
    (holds : (s'.task t).holds = some a) (holds' : (s'.task t').holds = some a) : t = t' := by
  rcases (step_shift h t).holds a holds with old | ⟨label, free⟩
  · rcases (step_shift h t').holds a holds' with old' | ⟨_, free⟩
    · exact mutex t t' a old old'
    · exact absurd old (free t)
  · rcases (step_shift h t').holds a holds' with old' | ⟨label', _⟩
    · exact absurd old' (free t')
    · rw [label] at label'
      cases label'
      rfl

theorem taken_unowned {o : AppId ⊕ TaskId}
    (unique : ∀ o o' c, s.owns o = some c → s.owns o' = some c → o = o')
    (h : SupervisorStep s (.take t a (some c)) s') (full : s.slot a = some c)
    (old : s.owns o = some c) : s'.owns o ≠ some c := by
  intro now
  obtain rfl := unique o (.inl a) c old full
  rw [show s'.owns (.inl a) = none from take_empties h] at now
  cases now

theorem unique_step {o o' : AppId ⊕ TaskId} (h : SupervisorStep s x s')
    (known : ∀ o c, s.owns o = some c → s.child c ≠ none)
    (unique : ∀ o o' c, s.owns o = some c → s.owns o' = some c → o = o')
    (now : s'.owns o = some c) (now' : s'.owns o' = some c) : o = o' := by
  rcases step_owns h now with old | ⟨t, a, rfl, rfl, new⟩ | ⟨t, a, rfl, rfl, full⟩
  · rcases step_owns h now' with old' | ⟨t, a, rfl, rfl, new⟩ | ⟨t, a, rfl, rfl, full⟩
    · exact unique o o' c old old'
    · exact absurd new (known o c old)
    · exact absurd now (taken_unowned unique h full old)
  · rcases step_owns h now' with old' | ⟨t', a', label, rfl, _⟩ | ⟨t', a', label, rfl, _⟩
    · exact absurd new (known o' c old')
    · cases label
      rfl
    · cases label
  · rcases step_owns h now' with old' | ⟨t', a', label, rfl, _⟩ | ⟨t', a', label, rfl, _⟩
    · exact absurd now' (taken_unowned unique h full old')
    · cases label
    · cases label
      rfl

theorem view_step {y : Option ChildId} (h : SupervisorStep s x s') (sound : Sound s)
    (now : (s'.task t).view = some (a, y)) : s'.slot a = y := by
  rcases (step_shift h t).view a y now with old | ⟨_, seen⟩
  · have held := view_holds old
    have seen := sound.view t a y old
    have change := step_slot h a
    generalize s'.slot a = z at change
    cases change with
    | kept => exact seen
    | @filled t' c held' blind _ =>
      obtain rfl := sound.mutex t t' a held held'
      rw [old] at blind
      cases blind
    | taken free => exact absurd held (free t)
    | collected unused => exact absurd (holds_arc held) (unused.2 t)
  · exact seen

theorem sound_step (endpoint : String) :
    Stable SupervisorStep (Supervisor.new endpoint) Sound := by
  intro s x s' _ h sound
  constructor
  · intro t t' a holds holds'
    exact mutex_step h sound.mutex holds holds'
  · intro o c now
    rcases step_owns h now with old | ⟨t, a, rfl, rfl, _⟩ | ⟨t, a, rfl, rfl, full⟩
    · exact step_known h (sound.known o c old)
    · exact spawned_known h
    · exact step_known h (sound.known (.inl a) c full)
  · intro o o' c now now'
    exact unique_step h sound.known sound.unique now now'
  · intro t a y now
    exact view_step h sound now

theorem sound (reach : SupervisorReachable endpoint s) : Sound s := by
  refine reachable_invariant ⟨?_, ?_, ?_, ?_⟩ (sound_step endpoint) reach
  · intro t t' a holds
    cases holds
  · intro o c owned
    cases o <;> cases owned
  · intro o o' c owned
    cases o <;> cases owned
  · intro t a y view
    cases view

end TokimoSupervisor

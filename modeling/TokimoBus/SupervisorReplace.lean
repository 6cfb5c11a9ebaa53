import TokimoBus.SupervisorLoops
import TokimoBus.SupervisorSpawns

/-!
What becomes of an `AppState` that has left the map. `ensure_up` and `stop_service` let go
of it when they return, and its child is dropped with it. A restart loop that has looked
it up before keeps it as long as it likes, and spawns from its spec if it was about to.
-/
namespace TokimoSupervisor
open TokimoFrame LabelledRuns
variable {s s' : Supervisor} {x : SupervisorAct} {acts : List SupervisorAct} {t t' : TaskId}
  {a a' : AppId} {c c' : ChildId} {endpoint service token : String} {u : Caller}

def TaskPhase.drives : TaskPhase → Option AppId
  | .spawnLock _ a | .failing _ a | .waitLock _ a | .waiting _ a _ | .resting _ a
  | .spawning (.resident _) a | .starting (.resident _) a _ => some a
  | _ => none

theorem drives_arc {p : TaskPhase} (drives : p.drives = some a) : p.arc = some a := by
  unfold TaskPhase.drives at drives
  split at drives <;> simp_all [TaskPhase.arc, TaskPhase.holds]

def TaskPhase.heads : TaskPhase → Option AppId
  | .spawnLock _ a | .spawning (.resident _) a | .starting (.resident _) a _ => some a
  | _ => none

def Supervisor.Listed (s : Supervisor) (a : AppId) : Prop := ∃ service, s.apps service = some a

def Supervisor.Retired (s : Supervisor) (a : AppId) : Prop := s.app a ≠ none ∧ ¬ s.Listed a

def Supervisor.Driven (s : Supervisor) (a : AppId) : Prop := ∃ t, (s.task t).drives = some a

/-- Every running process belongs to an app of the map, or to a replaced or removed one that
    is gone as soon as the calls that still hold it return; and no restart loop spawns from a
    replaced or removed spec. -/
structure Final (s : Supervisor) : Prop where
  alive : ∀ c, s.Alive c → (∃ a, s.slot a = some c ∧ (s.Listed a ∨ ¬ s.Driven a)) ∨
    ∃ t, (s.task t).taken = some c
  spawns : ∀ t a c s', SupervisorStep s (.spawned t a c) s' →
    s.Listed a ∨ ∃ token, s.task t = .starting .ensure a token
  dropped : ∀ a, ¬ s.Listed a → (∀ t, (s.task t).arc ≠ some a) →
    ∃ s', SupervisorStep s (.collect a) s' ∧ ∀ c, s.slot a = some c → ¬ s'.Alive c

/-- No restart loop is about to spawn from the `AppState` or holds it over a running child. -/
structure Released (s : Supervisor) (a : AppId) : Prop where
  heads : ∀ t, (s.task t).heads ≠ some a
  idle : ∀ c, s.slot a = some c → s.Alive c → ¬ s.Driven a

def unlists : SupervisorAct → Option String
  | .removed _ p => some p.service
  | .register spec _ => some spec.service
  | .inserted _ spec _ => some spec.service
  | _ => none

/-- The condition under which a replaced or removed spec is done with. -/
structure Settled (s : Supervisor) (x : SupervisorAct) : Prop where
  released : ∀ service a, unlists x = some service → s.apps service = some a → Released s a
  unshared : ∀ t a c token, x = .spawned t a c → s.task t = .starting .ensure a token →
    s.Retired a → ¬ s.Driven a

structure Driving (x : SupervisorAct) (t : TaskId) (p q : TaskPhase) : Prop where
  drives : ∀ a, q.drives = some a → p.drives = some a ∨ x = .residentGet t (some a)
  heads : ∀ a, q.heads = some a → p.heads = some a ∨ x = .residentGet t (some a)
  loops : ∀ service a, q.loops = some service → q.drives = some a →
    p.loops = some service ∧ p.drives = some a ∨ x = .residentGet t (some a) ∧ p = .resident service

theorem driving_refl (p : TaskPhase) : Driving x t p p :=
  ⟨fun _ => Or.inl, fun _ => Or.inl, fun _ _ looping driven => Or.inl ⟨looping, driven⟩⟩

theorem moved_driving {f : TaskId → TaskPhase} {t d : TaskId} {p q : TaskPhase} (here : f d = q)
    (driving : Driving x d q p) : Driving x t (f t) (Function.update f d p t) := by
  by_cases same : t = d
  · subst same
    rw [Function.update_self, here]
    exact driving
  · rw [Function.update_of_ne same]
    exact driving_refl _

theorem step_driving (h : SupervisorStep s x s') (t : TaskId) :
    Driving x t (s.task t) (s'.task t) := by
  cases h with
  | residentGet here =>
    refine moved_driving here ?_
    constructor
    · rintro a ⟨⟩
      exact Or.inr rfl
    · rintro a ⟨⟩
      exact Or.inr rfl
    · rintro service a ⟨⟩ ⟨⟩
      exact Or.inr ⟨rfl, rfl⟩
  | @issue d u a st token here =>
    refine moved_driving here ?_
    cases u <;> constructor <;> simp [TaskPhase.drives, TaskPhase.heads,
      TaskPhase.loops, Caller.loops]
  | @spawned d u a st token c here =>
    simp only [Supervisor.setTask, startChild_task]
    refine moved_driving here ?_
    cases u <;> constructor <;> simp [Caller.succeeded, TaskPhase.drives, TaskPhase.heads,
      TaskPhase.loops, Caller.loops]
  | @inserted spec d a here =>
    refine moved_driving here ?_
    cases spec.lifecycle <;> constructor <;> simp [TaskPhase.drives, TaskPhase.heads, TaskPhase.loops]
  | @loop service d d' here new =>
    simp only [Supervisor.setTask]
    by_cases same : t = d
    · subst same
      rw [Function.update_self]
      constructor <;> simp [TaskPhase.drives, TaskPhase.heads,
      TaskPhase.loops, Caller.loops]
    · rw [Function.update_of_ne same]
      refine moved_driving new ?_
      constructor <;> simp [TaskPhase.drives, TaskPhase.heads, TaskPhase.loops]
  | stopWaitFailed here =>
    simp only [Supervisor.setTask, dropChild_task]
    refine moved_driving here ?_
    constructor <;> simp [TaskPhase.drives, TaskPhase.heads, TaskPhase.loops]
  | collect =>
    simp only [Supervisor.setApp, dropChild_task]
    exact driving_refl _
  | register | exit | die | hello => exact driving_refl _
  | startResident here | residentGone here | spawnLock here | waitLock here | waitNone here
  | waited here | waitFailed here | wakeResting here | wakeFailing here | spawnFailed here
  | ensureFailed here | ensureUp here | ensureGet here | ensureMissing here | ensureLock here
  | running here | absent here | tryWaitFailed here | change here | known here
  | unknownReplace here | unknownUnregister here | stopGet here | stopMissing here | take here
  | takeNone here | kill here | killFailed here | killWaitFailed here | killed here
  | stopped here | removedReplace here | removedUnregister here =>
    refine moved_driving here ?_
    constructor <;> simp [TaskPhase.drives, TaskPhase.heads,
      TaskPhase.loops, Caller.loops]

theorem step_listed (h : SupervisorStep s x s') (listed : s.Listed a) :
    s'.Listed a ∨ ∃ service, unlists x = some service ∧ s.apps service = some a := by
  obtain ⟨service, found⟩ := listed
  have other : ∀ {name : String} {new : Option AppId}, unlists x = some name →
      s'.apps = Function.update s.apps name new →
      s'.Listed a ∨ ∃ service, unlists x = some service ∧ s.apps service = some a := by
    intro name new label apps
    by_cases same : service = name
    · exact Or.inr ⟨name, label, by rwa [← same]⟩
    · refine Or.inl ⟨service, ?_⟩
      rwa [apps, Function.update_of_ne same]
  cases h with
  | register => exact other rfl rfl
  | inserted => exact other rfl rfl
  | removedReplace => exact other rfl rfl
  | removedUnregister => exact other rfl rfl
  | spawned =>
    refine Or.inl ⟨service, ?_⟩
    rw [← found]
    simp [Supervisor.setTask]
  | stopWaitFailed =>
    refine Or.inl ⟨service, ?_⟩
    rw [← found]
    simp [Supervisor.setTask]
  | collect =>
    refine Or.inl ⟨service, ?_⟩
    rw [← found]
    simp [Supervisor.setApp]
  | _ => exact Or.inl ⟨service, found⟩

theorem created_listed (h : SupervisorStep s x s') (created : creates x = some a) :
    s'.Listed a := by
  cases h with
  | @register spec b =>
    cases created
    exact ⟨spec.service, Function.update_self _ _ _⟩
  | @inserted spec t b =>
    cases created
    exact ⟨spec.service, Function.update_self _ _ _⟩
  | _ => cases created

theorem step_retires (h : SupervisorStep s x s') (now : s'.Retired a) :
    s.Retired a ∨ ∃ service, unlists x = some service ∧ s.apps service = some a := by
  obtain ⟨exists', gone⟩ := now
  by_cases listed : s.Listed a
  · rcases step_listed h listed with still | taken
    · exact absurd still gone
    · exact Or.inr taken
  · rcases step_creates h exists' with old | created
    · exact Or.inl ⟨old, listed⟩
    · exact absurd (created_listed h created) gone

theorem known_or_spawned (h : SupervisorStep s x s') (known : s'.child c ≠ none) :
    s.child c ≠ none ∨ ∃ t a, x = .spawned t a c := by
  by_cases fresh : s.child c = none
  · have same : ∀ {d : ChildId} {p : ProcessState}, (s.setState d p).child c = none := by
      intro d p
      by_cases eq : c = d
      · subst eq
        simp [Supervisor.setState, fresh]
      · simp [Supervisor.setState, eq, fresh]
    cases h with
    | exit => exact absurd same known
    | die => exact absurd same known
    | kill => exact absurd same known
    | @spawned t u a st token d here found new =>
      by_cases eq : c = d
      · exact Or.inr ⟨t, a, by rw [eq]⟩
      · exact absurd (startChild_fresh (a := a) eq fresh) known
    | stopWaitFailed => exact absurd (dropChild_fresh fresh) known
    | collect => exact absurd (dropChild_fresh fresh) known
    | _ => exact absurd fresh known
  · exact Or.inl fresh

theorem alive_born (reach : SupervisorReachable endpoint s) (h : SupervisorStep s x s')
    (up : s'.Alive c) : s.Alive c ∨ ∃ t a, x = .spawned t a c := by
  have known : s'.child c ≠ none := by
    intro none
    simp [Supervisor.Alive, Supervisor.state, none] at up
  rcases known_or_spawned h known with old | born
  · by_contra neither
    rw [not_or] at neither
    exact (over_stable endpoint c s x s' reach h ⟨old, neither.1⟩).2 up
  · exact Or.inr born

theorem spawned_slot (h : SupervisorStep s (.spawned t a c) s') : s'.slot a = some c := by
  cases h with
  | spawned => simp [Supervisor.slot, Supervisor.setTask, Supervisor.startChild, Supervisor.setApp]

theorem dropChild_kills (s : Supervisor) (c : ChildId) : ¬ (s.dropChild (some c)).Alive c := by
  simp only [Supervisor.dropChild]
  split
  · rename_i up
    have signalled := setState_state (p := .killed) up
    intro still
    rw [Supervisor.Alive, signalled] at still
    cases still
  · assumption

theorem collected_kills (h : SupervisorStep s (.collect a) s') (full : s.slot a = some c) :
    ¬ s'.Alive c := by
  cases h with
  | collect =>
    rw [full]
    exact dropChild_kills s c

theorem spawned_drops (sound : Sound s) (h : SupervisorStep s (.spawned t a c') s')
    (full : s.slot a = some c) : ¬ s'.Alive c := by
  have known := sound.known (.inl a) c full
  cases h with
  | @spawned _ u _ st token _ here found new =>
    have ne : c ≠ c' := by
      rintro rfl
      exact known new
    have child : st.child = some c := by simpa [Supervisor.slot, found] using full
    intro up
    apply dropChild_kills s c
    simpa [Supervisor.Alive, Supervisor.state, Supervisor.setTask, Supervisor.startChild, ne,
      child] using up

theorem take_taken (h : SupervisorStep s (.take t a (some c)) s') :
    (s'.task t).taken = some c := by
  cases h with
  | take =>
    rw [setTask_here]
    rfl

theorem taken_step (h : SupervisorStep s x s') (taken : (s.task t).taken = some c)
    (up : s'.Alive c) : (s'.task t).taken = some c := by
  have other : ∀ {d : TaskId} {p q : TaskPhase}, s.task d = q →
      (q.taken = some c → p.taken = some c) → (Function.update s.task d p t).taken = some c := by
    intro d p q here same
    exact moved_on (P := fun p => p.taken = some c) here same taken
  cases h with
  | @stopped p d a c' success here finished =>
    refine other here fun held => ?_
    cases held
    have still : s.state c = some .alive := up
    rw [finished] at still
    cases still
  | @stopWaitFailed p d a c' here =>
    simp only [Supervisor.setTask, dropChild_task]
    refine other here fun held => ?_
    cases held
    exact absurd up (dropChild_kills s c)
  | @spawned d u a st token c' here =>
    simp only [Supervisor.setTask, startChild_task]
    exact other here (by simp [TaskPhase.taken])
  | @loop service d d' here new =>
    simp only [Supervisor.setTask]
    have ne : t ≠ d := by
      rintro rfl
      rw [here] at taken
      cases taken
    rw [Function.update_of_ne ne]
    exact other new (by simp [TaskPhase.taken])
  | collect =>
    simp only [Supervisor.setApp, dropChild_task]
    exact taken
  | register | exit | die | hello => exact taken
  | kill here | killFailed here | killWaitFailed here | killed here =>
    exact other here (by simp [TaskPhase.taken])
  | startResident here | residentGet here | residentGone here | spawnLock here | waitLock here
  | waitNone here | waited here | waitFailed here | wakeResting here | wakeFailing here
  | issue here | spawnFailed here | ensureFailed here | ensureUp here | ensureGet here
  | ensureMissing here | ensureLock here | running here | absent here | tryWaitFailed here
  | change here | known here | unknownReplace here | unknownUnregister here | stopGet here
  | stopMissing here | take here | takeNone here | removedReplace here
  | removedUnregister here | inserted here =>
    exact other here (by simp [TaskPhase.taken])

theorem owner_step (sound : Sound s) (h : SupervisorStep s x s') {o : AppId ⊕ TaskId}
    (owned : s.owns o = some c) (up : s'.Alive c) : ∃ o, s'.owns o = some c := by
  cases o with
  | inl a =>
    have full : s.slot a = some c := owned
    have change := step_slot h a
    generalize same : s'.slot a = y at change
    cases change with
    | kept => exact ⟨.inl a, same.trans full⟩
    | filled => exact absurd up (spawned_drops sound h full)
    | @taken t d free full' =>
      rw [full] at full'
      cases full'
      exact ⟨.inr t, take_taken h⟩
    | collected unused => exact absurd up (collected_kills h full)
  | inr t => exact ⟨.inr t, taken_step h owned up⟩

theorem alive_owned (reach : SupervisorReachable endpoint s) (up : s.Alive c) :
    ∃ o, s.owns o = some c := by
  obtain ⟨acts, run⟩ := reach
  induction run with
  | nil => cases up
  | @snoc acts v s x before last ih =>
    rcases alive_born ⟨_, before⟩ last up with old | ⟨t, a, rfl⟩
    · obtain ⟨o, owned⟩ := ih old
      exact owner_step (sound ⟨_, before⟩) last owned up
    · exact ⟨.inl a, spawned_slot last⟩

theorem resident_listed (h : SupervisorStep s (.residentGet t (some a)) s') : s'.Listed a := by
  cases h with
  | residentGet here listed => exact ⟨_, listed⟩

theorem spawned_fresh (h : SupervisorStep s (.spawned t a c) s') : s.child c = none := by
  cases h with
  | spawned _ _ new => exact new

theorem spawned_by (h : SupervisorStep s (.spawned t a c) s') :
    (s.task t).heads = some a ∨ ∃ token, s.task t = .starting .ensure a token := by
  cases h with
  | @spawned _ u _ st token _ here =>
    cases u with
    | resident service => exact Or.inl (by rw [here]; rfl)
    | ensure => exact Or.inr ⟨token, here⟩

/-- A settled step leaves every replaced or removed spec released. -/
theorem released_step (reach : SupervisorReachable endpoint s) (h : SupervisorStep s x s')
    (settled : Settled s x) (known : ∀ a, s.Retired a → Released s a) (retired : s'.Retired a) :
    Released s' a := by
  have before : Released s a := by
    rcases step_retires h retired with old | ⟨service, label, found⟩
    · exact known a old
    · exact settled.released service a label found
  have unfound : ∀ t, x ≠ .residentGet t (some a) := by
    rintro t rfl
    exact retired.2 (resident_listed h)
  have undriven : ∀ c, s.slot a = some c → s.Alive c → ¬ s'.Driven a := by
    rintro c full up ⟨t, drives⟩
    rcases (step_driving h t).drives a drives with old | label
    · exact before.idle c full up ⟨t, old⟩
    · exact unfound t label
  constructor
  · intro t heads
    rcases (step_driving h t).heads a heads with old | label
    · exact before.heads t old
    · exact unfound t label
  · intro c full up
    have change := step_slot h a
    generalize s'.slot a = y at change full
    cases change with
    | kept =>
      rcases alive_born reach h up with old | ⟨t, b, rfl⟩
      · exact undriven c full old
      · exact absurd (spawned_fresh h) ((sound reach).known (.inl a) c full)
    | @filled t d held =>
      rintro ⟨t', drives⟩
      rcases (step_driving h t').drives a drives with old | label
      · rcases spawned_by h with heads | ⟨token, here⟩
        · exact before.heads t heads
        · rcases step_retires h retired with gone | ⟨service, label, _⟩
          · exact settled.unshared t a d token rfl here gone ⟨t', old⟩
          · cases label
      · cases label
    | taken => cases full
    | collected => cases full

/-- While every step is settled, replacing or unregistering a spec is final. -/
theorem replace_final
    (run : Run (Guarded SupervisorStep Settled) (Supervisor.new endpoint) acts s) :
    Final s := by
  have reach : SupervisorReachable endpoint s := ⟨acts, guarded_run run⟩
  have released : ∀ a, s.Retired a → Released s a := by
    clear reach
    induction run with
    | nil =>
      intro a retired
      exact absurd rfl retired.1
    | snoc before last ih =>
      intro a retired
      exact released_step ⟨_, guarded_run before⟩ last.1 last.2 ih retired
  constructor
  · intro c up
    obtain ⟨o, owned⟩ := alive_owned reach up
    cases o with
    | inl a =>
      have full : s.slot a = some c := owned
      refine Or.inl ⟨a, full, ?_⟩
      by_cases listed : s.Listed a
      · exact Or.inl listed
      · refine Or.inr ((released a ⟨?_, listed⟩).idle c full up)
        intro none
        simp [Supervisor.slot, none] at full
    | inr t => exact Or.inr ⟨t, owned⟩
  · intro t a c s' step
    rcases spawned_by step with heads | ensured
    · by_cases listed : s.Listed a
      · exact Or.inl listed
      · refine absurd heads ((released a ⟨?_, listed⟩).heads t)
        cases step with
        | spawned _ found =>
          rw [found]
          simp
    · exact Or.inr ensured
  · intro a gone free
    have step := SupervisorStep.collect ⟨fun service found => gone ⟨service, found⟩, free⟩
    exact ⟨_, step, fun c full => collected_kills step full⟩

def SpecNamed (s : Supervisor) : Prop :=
  ∀ service a, s.apps service = some a → ∃ st, s.app a = some st ∧ st.spec.service = service

theorem named_inserted {b : AppId} {spec : AppSpec}
    (old : s.apps service = some a → ∃ st, s'.app a = some st ∧ st.spec.service = service)
    (now : s'.app b = some (AppState.new spec))
    (listed : Function.update s.apps spec.service (some b) service = some a) :
    ∃ st, s'.app a = some st ∧ st.spec.service = service := by
  by_cases eq : service = spec.service
  · subst eq
    rw [Function.update_self] at listed
    cases listed
    exact ⟨_, now, rfl⟩
  · rw [Function.update_of_ne eq] at listed
    exact old listed

theorem unlisted_before {name : String}
    (listed : Function.update s.apps name none service = some a) : s.apps service = some a := by
  by_cases eq : service = name
  · subst eq
    rw [Function.update_self] at listed
    cases listed
  · rwa [Function.update_of_ne eq] at listed

theorem named_step (h : SupervisorStep s x s') (named : SpecNamed s) : SpecNamed s' := by
  intro service a listed
  have old : s.apps service = some a → ∃ st, s'.app a = some st ∧ st.spec.service = service := by
    intro before
    obtain ⟨st, found, name⟩ := named service a before
    obtain ⟨st', found', same⟩ := spec_listed h found before
    exact ⟨st', found', by rw [same, name]⟩
  cases h with
  | register | inserted => exact named_inserted old (Function.update_self _ _ _) listed
  | removedReplace | removedUnregister => exact old (unlisted_before (s := s) listed)
  | spawned | stopWaitFailed | collect =>
    exact old (by simpa [Supervisor.setTask, Supervisor.setApp] using listed)
  | _ => exact old listed

theorem listed_spec (reach : SupervisorReachable endpoint s)
    (listed : s.apps service = some a) : ∃ st, s.app a = some st ∧ st.spec.service = service := by
  have start : SpecNamed (Supervisor.new endpoint) := by
    intro service a listed
    cases listed
  exact reachable_invariant start (fun _ _ _ _ step named => named_step step named) reach
    service a listed

/-- A restart loop spawns from an app of its own service. -/
theorem driven_spec (reach : SupervisorReachable endpoint s) :
    (s.task t).loops = some service → (s.task t).drives = some a →
      ∃ st, s.app a = some st ∧ st.spec.service = service := by
  refine reachable_invariant (p := fun s => (s.task t).loops = some service →
    (s.task t).drives = some a → ∃ st, s.app a = some st ∧ st.spec.service = service) ?_ ?_ reach
  · intro looping
    cases looping
  · intro v x v' reach h named looping driven
    rcases (step_driving h t).loops service a looping driven with ⟨before, held⟩ | ⟨rfl, here⟩
    · obtain ⟨st, found, name⟩ := named before held
      obtain ⟨st', found', same⟩ := spec_held h found (drives_arc held)
      exact ⟨st', found', by rw [same, name]⟩
    · cases h with
      | residentGet there listed =>
        cases there.symm.trans here
        obtain ⟨st, found, name⟩ := listed_spec reach listed
        exact ⟨st, found, name⟩

theorem removed_unlisted {p : Purpose} (reach : SupervisorReachable endpoint s)
    (h : SupervisorStep s (.removed t p) s') (listed : s.apps p.service = some a) :
    ¬ s'.Listed a := by
  have gone : s'.apps = Function.update s.apps p.service none := by
    cases h <;> rfl
  rintro ⟨name, found⟩
  rw [gone] at found
  by_cases eq : name = p.service
  · rw [eq, Function.update_self] at found
    cases found
  · rw [Function.update_of_ne eq] at found
    obtain ⟨st, here, named⟩ := listed_spec reach listed
    obtain ⟨st', here', named'⟩ := listed_spec reach found
    rw [here] at here'
    cases here'
    exact eq (named'.symm.trans named)

theorem unretired_settled (none : ∀ a, ¬ s.Retired a)
    (adds : ∀ service, unlists x = some service → s.apps service = .none) : Settled s x := by
  constructor
  · intro service a label listed
    rw [adds service label] at listed
    cases listed
  · intro t a c token _ _ retired
    exact absurd retired (none a)

theorem unretired_run {v : Supervisor} (run : Run SupervisorStep v acts s)
    (none : ∀ a, ¬ v.Retired a) (quiet : ∀ x ∈ acts, unlists x = .none) :
    Run (Guarded SupervisorStep Settled) v acts s ∧ ∀ a, ¬ s.Retired a := by
  induction run with
  | nil => exact ⟨Run.nil, none⟩
  | snoc before step ih =>
    obtain ⟨run, none⟩ := ih fun x mem => quiet x (List.mem_append_left _ mem)
    have last := quiet _ (List.mem_append_right _ (List.mem_singleton.mpr rfl))
    constructor
    · refine run.snoc ⟨step, unretired_settled none fun service label => ?_⟩
      rw [last] at label
      cases label
    · intro a retired
      rcases step_retires step retired with old | ⟨service, label, _⟩
      · exact none a old
      · rw [last] at label
        cases label

theorem unregistered_final : ∃ s, (s.task 0).drives = some 0 ∧ ¬ s.Listed 0 ∧ Final s := by
  obtain ⟨v, st, run, alone, full, finished, _⟩ := rested
  obtain ⟨s, stop, beside, _⟩ := @stops _ _ (.unregister "video") alone rfl full finished
  have joined := run_append run stop
  have whole : SupervisorRun "bus" ([.register videoSpec 0] ++
      (restActs ++ stopActs (.unregister "video")).tail) s := joined
  have reach : SupervisorReachable "bus" s := ⟨_, whole⟩
  obtain ⟨u, first, rest⟩ := run_split whole
  obtain ⟨start, none, register⟩ := @run_snoc_inv _ _ _ _ _ [] _ first
  obtain rfl := run_nil_inv none
  have fresh : ∀ a, ¬ (Supervisor.new "bus").Retired a := fun a retired => retired.1 rfl
  have unretired : ∀ a, ¬ u.Retired a := by
    intro a retired
    rcases step_retires register retired with old | ⟨service, _, listed⟩
    · exact fresh a old
    · cases listed
  have begun : Run (Guarded SupervisorStep Settled) (Supervisor.new "bus")
      [.register videoSpec 0] u :=
    run_single ⟨register, unretired_settled fresh fun _ _ => rfl⟩
  obtain ⟨goes, _⟩ := unretired_run rest unretired (by decide)
  have last := SupervisorStep.removedUnregister beside.beside
  have gone := removed_unlisted reach last beside.listed
  have settled : Settled s (.removed 1 (.unregister "video")) := by
    refine ⟨?_, by simp⟩
    intro service a label listed
    cases label
    cases listed.symm.trans beside.listed
    constructor
    · intro t heads
      by_cases loop : t = 0
      · rw [loop, beside.here] at heads
        cases heads
      · by_cases call : t = 1
        · rw [call, beside.beside] at heads
          cases heads
        · rw [beside.others t loop call] at heads
          cases heads
    · intro c full
      rw [Supervisor.slot, beside.found] at full
      cases full
  refine ⟨_, ?_, gone, replace_final ((run_append begun goes).snoc ⟨last, settled⟩)⟩
  have rests : ((s.removeApp "video").setTask 1 (.done (.ok ()))).task 0 = .resting "video" 0 := by
    rw [← beside.here]
    rfl
  rw [rests]
  rfl

/-- The loop wakes up between `stop_service` and the removal of the entry. -/
theorem removed_spec_respawned : ¬ ∀ acts s, SupervisorRun "bus" acts s → Final s := by
  intro claim
  obtain ⟨v, st, run, alone, full, finished, new⟩ := rested
  obtain ⟨s, stop, beside, children⟩ := @stops _ _ (.unregister "video") alone rfl full finished
  have run := run_append run stop
  have fresh : s.child 1 = none := by rw [children, new]
  have free : (s.setTask 0 (.spawnLock "video" 0)).Free 0 := by
    intro t holds
    by_cases first : t = 0
    · rw [first, setTask_here] at holds
      cases holds
    · simp only [Supervisor.setTask, Function.update_of_ne first] at holds
      by_cases second : t = 1
      · rw [second, beside.beside] at holds
        cases holds
      · rw [beside.others t first second] at holds
        cases holds
  have run := run.snoc (.wakeResting beside.here)
  have run := run.snoc (.residentGet (setTask_here _ _ _) beside.listed)
  rw [setTask_setTask] at run
  have run := run.snoc (.spawnLock (setTask_here _ _ _) free)
  rw [setTask_setTask] at run
  have run := run.snoc (@SupervisorStep.issue _ _ _ _ _ "token" (setTask_here _ _ _) beside.found)
  have run := run.snoc (@SupervisorStep.spawned _ _ _ _ _ _ 1 (setTask_here _ _ _) beside.found fresh)
  obtain ⟨v, _, run, driven, removing, listed, full, up⟩ : ∃ v acts, SupervisorRun "bus" acts v ∧
      v.task 0 = .waitLock "video" 0 ∧ v.task 1 = .remove (.unregister "video") ∧
      v.apps "video" = some 0 ∧ v.slot 0 = some 1 ∧ v.Alive 1 := by
    refine ⟨_, _, run, setTask_here _ _ _, ?_, ?_, rfl, rfl⟩
    · rw [← beside.beside]
      rfl
    · rw [← beside.listed]
      rfl
  have last := SupervisorStep.removedUnregister removing
  have gone := removed_unlisted ⟨_, run⟩ last listed
  have final := claim _ _ (run.snoc last)
  rcases final.alive 1 up with ⟨a, here, owned⟩ | ⟨t, taken⟩
  · have one := (sound ⟨_, run.snoc last⟩).unique (.inl a) (.inl 0) 1 here full
    cases one
    rcases owned with still | free
    · exact gone still
    · refine free ⟨0, ?_⟩
      simp [Supervisor.setTask, Supervisor.removeApp, driven, TaskPhase.drives]
  · have one := (sound ⟨_, run.snoc last⟩).unique (.inr t) (.inl 0) 1 taken full
    cases one

end TokimoSupervisor

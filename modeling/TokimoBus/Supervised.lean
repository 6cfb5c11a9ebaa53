import TokimoBus.Admission
import TokimoBus.Config
import TokimoBus.SupervisorSpawns
import Mathlib.Tactic.IntervalCases

/-!
A supervisor and its broker in one process. The supervisor asks the broker for the spawn tokens,
and every token check of the broker uses up what the supervisor was given; otherwise each goes
its own way. What a process that was started can do with its token follows.
-/
namespace TokimoSupervised
open TokimoFrame TokimoBroker TokimoSession TokimoWire TokimoAdmission TokimoSupervisor TokimoConfig
open TokimoProgress LabelledRuns SlotLedger WrappingCounter

structure Fleet where
  sup : Supervisor
  world : World

def Fleet.start (endpoint : String) : Fleet := ⟨Supervisor.new endpoint, World.init⟩

inductive FleetAct where
  | supervisor (x : SupervisorAct)
  | broker (a : Act)
  | issue (t : TokimoSupervisor.TaskId) (a : AppId) (n : Nat) (service token : String)
  | check (k : ConnId) (h : HelloRequest) (ok : Bool)

def Shared : SupervisorAct → Prop
  | .issue _ _ _ | .hello _ => True
  | _ => False

def SharedAct : Act → Prop
  | .issue _ _ _ | .consume _ _ _ => True
  | _ => False

inductive FleetStep (env : Env) : Fleet → FleetAct → Fleet → Prop where
  | supervisor {s : Fleet} {x : SupervisorAct} {v : Supervisor}
      (step : SupervisorStep s.sup x v) (own : ¬ Shared x) :
      FleetStep env s (.supervisor x) { s with sup := v }
  | broker {s : Fleet} {a : Act} {w : World} (step : Step env s.world a w)
      (own : ¬ SharedAct a) : FleetStep env s (.broker a) { s with world := w }
  -- `self.broker.issue_token(&state.spec.service)`
  | issue {s : Fleet} {t : TokimoSupervisor.TaskId} {a : AppId} {st : AppState} {n : Nat}
      {token : String} {v : Supervisor} {w : World}
      (asked : SupervisorStep s.sup (.issue t a token) v) (found : s.sup.app a = some st)
      (stored : Step env s.world (.issue n st.spec.service token) w) :
      FleetStep env s (.issue t a n st.spec.service token) ⟨v, w⟩
  | check {s : Fleet} {k : ConnId} {h : HelloRequest} {ok : Bool} {v : Supervisor} {w : World}
      (step : Step env s.world (.consume k h ok) w)
      (spent : SupervisorStep s.sup (.hello h.service) v) :
      FleetStep env s (.check k h ok) ⟨v, w⟩

def brokerPart : FleetAct → List Act
  | .supervisor _ => []
  | .broker a => [a]
  | .issue _ _ n service token => [.issue n service token]
  | .check k h ok => [.consume k h ok]

def supervisorPart : FleetAct → List SupervisorAct
  | .supervisor x => [x]
  | .broker _ => []
  | .issue t a _ _ token => [.issue t a token]
  | .check _ h _ => [.hello h.service]

variable {env : Env} {endpoint : String} {s s' : Fleet} {x : FleetAct} {acts : List FleetAct}
  {t t' : TokimoSupervisor.TaskId} {a : AppId} {c c' : ChildId} {n : Nat} {token service : String}
  {st : AppState} {u : Caller} {v v' : Supervisor} {y : SupervisorAct} {k : ConnId}
  {h : HelloRequest}

abbrev FleetRun (env : Env) (endpoint : String) (acts : List FleetAct) (s : Fleet) : Prop :=
  Run (FleetStep env) (Fleet.start endpoint) acts s

theorem broker_run (run : FleetRun env endpoint acts s) :
    BrokerRun env (acts.flatMap brokerPart) s.world := by
  refine run_map Fleet.world brokerPart ?_ run
  intro v x w _ step
  cases step with
  | supervisor => exact Run.nil
  | broker step => exact run_single step
  | issue _ _ stored => exact run_single stored
  | check step => exact run_single step

theorem supervisor_run (run : FleetRun env endpoint acts s) :
    SupervisorRun endpoint (acts.flatMap supervisorPart) s.sup := by
  refine run_map Fleet.sup supervisorPart ?_ run
  intro v x w _ step
  cases step with
  | supervisor step => exact run_single step
  | broker => exact Run.nil
  | issue asked => exact run_single asked
  | check _ spent => exact run_single spent

theorem dropChild_tokens (v : Supervisor) (o : Option ChildId) :
    (v.dropChild o).tokens = v.tokens := by
  cases o with
  | none => rfl
  | some c =>
    simp only [Supervisor.dropChild]
    split <;> rfl

theorem tokens_kept (h : SupervisorStep v y v') (own : ¬ Shared y) : v'.tokens = v.tokens := by
  cases h with
  | issue | hello => exact absurd trivial own
  | spawned | stopWaitFailed | collect => exact dropChild_tokens _ _
  | _ => rfl

theorem tokens_issued (h : SupervisorStep v (.issue t a token) v') (found : v.app a = some st) :
    v'.tokens = Function.update v.tokens st.spec.service (some token) := by
  cases h with
  | issue here found' =>
    rw [found] at found'
    cases found'
    rfl

theorem tokens_spent (h : SupervisorStep v (.hello service) v') :
    v'.tokens = Function.update v.tokens service none := by
  cases h with
  | hello => rfl

/-- Both keep the same table of tokens. -/
theorem tokens_agree (run : FleetRun env endpoint acts s) :
    s.sup.tokens = s.world.broker.tokens := by
  refine run_history (p := fun _ (s : Fleet) => s.sup.tokens = s.world.broker.tokens) rfl ?_ run
  intro _ v x w _ step ih
  cases step with
  | supervisor step own => exact (tokens_kept step own).trans ih
  | @broker b w step own =>
    have free : tokenTouch b = none := by
      cases b <;> first | rfl | exact absurd trivial own
    exact ih.trans (token_ledger.keep step free).symm
  | issue asked found stored =>
    have wrote := token_ledger.write stored rfl
    exact (tokens_issued asked found).trans (by rw [ih, wrote])
  | check step spent =>
    have wrote := token_ledger.write step rfl
    exact (tokens_spent spent).trans (by rw [ih, wrote])

theorem starting_made (h : SupervisorStep v y v') (now : v'.task t = .starting u a token) :
    v.task t = .starting u a token ∨ y = .issue t a token := by
  cases h with
  | @issue d u' b st tok here found =>
    refine moved_made (f := v.task) (P := fun q => q = .starting u a token) (fun same q => ?_) now
    cases q
    rw [same]
  | register | exit | die | hello => exact Or.inl now
  | collect =>
    simp only [Supervisor.setApp, dropChild_task] at now
    exact Or.inl now
  | @spawned d u' b st tok c here found new =>
    simp only [Supervisor.setTask, startChild_task] at now
    refine Or.inl (moved_back (P := fun q => q = .starting u a token) here ?_ now)
    cases u' <;> simp [Caller.succeeded]
  | stopWaitFailed here =>
    simp only [Supervisor.setTask, dropChild_task] at now
    exact Or.inl (moved_back (P := fun q => q = .starting u a token) here (by simp) now)
  | @inserted spec d b here new =>
    refine Or.inl (moved_back (f := v.task) (P := fun q => q = .starting u a token) here ?_ now)
    cases spec.lifecycle <;> simp
  | @loop service d d' here new =>
    have apart : d ≠ d' := by
      rintro rfl
      rw [here] at new
      cases new
    have still : Function.update v.task d' (.resident service) d = .loop service := by
      rw [Function.update_of_ne apart, here]
    simp only [Supervisor.setTask] at now
    have before := moved_back (P := fun q => q = .starting u a token) still (by simp) now
    exact Or.inl (moved_back (P := fun q => q = .starting u a token) new (by simp) before)
  | startResident here | residentGet here | residentGone here | spawnLock here | waitLock here
  | waitNone here | waited here | waitFailed here | wakeResting here | wakeFailing here
  | spawnFailed here | ensureFailed here | ensureUp here | ensureGet here | ensureMissing here
  | ensureLock here | running here | absent here | tryWaitFailed here | change here | known here
  | unknownReplace here | unknownUnregister here | stopGet here | stopMissing here | take here
  | takeNone here | kill here | killFailed here | killWaitFailed here | killed here | stopped here
  | removedReplace here | removedUnregister here =>
    exact Or.inl (moved_back (f := v.task) (P := fun q => q = .starting u a token) here (by simp) now)

theorem setState_command {ch : Child} {p : ProcessState}
    (now : (v.setState c' p).child c = some ch) :
    ∃ old, v.child c = some old ∧ old.command = ch.command := by
  by_cases eq : c = c'
  · subst eq
    simp only [Supervisor.setState, Function.update_self, Option.map_eq_some_iff] at now
    obtain ⟨old, found, rfl⟩ := now
    exact ⟨old, found, rfl⟩
  · simp only [Supervisor.setState, Function.update_of_ne eq] at now
    exact ⟨ch, now, rfl⟩

theorem dropChild_command {ch : Child} {o : Option ChildId}
    (now : (v.dropChild o).child c = some ch) :
    ∃ old, v.child c = some old ∧ old.command = ch.command := by
  cases o with
  | none => exact ⟨ch, now, rfl⟩
  | some d =>
    simp only [Supervisor.dropChild] at now
    split at now
    · exact setState_command now
    · exact ⟨ch, now, rfl⟩

theorem command_made {ch : Child} (h : SupervisorStep v y v') (now : v'.child c = some ch) :
    (∃ old, v.child c = some old ∧ old.command = ch.command) ∨
      ∃ t u a st token, y = .spawned t a c ∧ v.task t = .starting u a token ∧
        v.app a = some st ∧ ch.command = spawnCommand v.endpoint token st.spec := by
  cases h with
  | exit | die | kill => exact Or.inl (setState_command now)
  | stopWaitFailed | collect => exact Or.inl (dropChild_command now)
  | @spawned t u a st token d here found new =>
    by_cases eq : c = d
    · subst eq
      simp only [Supervisor.setTask, Supervisor.startChild, Function.update_self,
        Option.some.injEq] at now
      subst now
      exact Or.inr ⟨t, u, a, st, token, rfl, here, found, rfl⟩
    · simp only [Supervisor.setTask, Supervisor.startChild, Function.update_of_ne eq] at now
      exact Or.inl (dropChild_command now)
  | _ => exact Or.inl ⟨ch, now, rfl⟩

theorem endpoint_kept (h : SupervisorStep v y v') : v'.endpoint = v.endpoint := by
  have dropped : ∀ o, (v.dropChild o).endpoint = v.endpoint := by
    intro o
    cases o with
    | none => rfl
    | some c =>
      simp only [Supervisor.dropChild]
      split <;> rfl
  cases h with
  | spawned | stopWaitFailed | collect => exact dropped _
  | _ => rfl

theorem spawnCommand_token {e e' token token' : String} {spec spec' : AppSpec}
    (same : spawnCommand e token spec = spawnCommand e' token' spec') : token = token' := by
  have vars := congrArg Command.env same
  simp only [spawnCommand, List.cons_append, List.cons.injEq, Prod.mk.injEq, true_and] at vars
  exact vars.2.1

/-- Who has a token: the task that is about to start a process with it, or the process. -/
def Holds (v : Supervisor) : TokimoSupervisor.TaskId ⊕ ChildId → String → Prop
  | .inl t, token => ∃ u a, v.task t = .starting u a token
  | .inr c, token => ∃ ch spec, v.child c = some ch ∧
      ch.command = spawnCommand v.endpoint token spec

inductive Hands (s s' : Fleet) : FleetAct → TokimoSupervisor.TaskId ⊕ ChildId → String → Prop where
  | issued {t : TokimoSupervisor.TaskId} {a : AppId} {n : Nat} {service token : String} :
      Hands s s' (.issue t a n service token) (.inl t) token
  | passed {t : TokimoSupervisor.TaskId} {a : AppId} {c : ChildId} {token : String}
      (had : Holds s.sup (.inl t) token) (gone : ∀ token, ¬ Holds s'.sup (.inl t) token) :
      Hands s s' (.supervisor (.spawned t a c)) (.inr c) token

theorem spawned_passes (h : SupervisorStep v (.spawned t a c) v') : ¬ Holds v' (.inl t) token := by
  rintro ⟨u, b, here⟩
  cases h with
  | @spawned _ u' _ st tok =>
    simp only [Supervisor.setTask, Function.update_self] at here
    cases u' <;> cases here

theorem holds_step (step : FleetStep env s x s') {o : TokimoSupervisor.TaskId ⊕ ChildId}
    (now : Holds s'.sup o token) : Holds s.sup o token ∨ Hands s s' x o token := by
  cases o with
  | inl t =>
    obtain ⟨u, a, here⟩ := now
    cases step with
    | supervisor step own =>
      rcases starting_made step here with old | rfl
      · exact Or.inl ⟨u, a, old⟩
      · exact absurd trivial own
    | broker => exact Or.inl ⟨u, a, here⟩
    | issue asked =>
      rcases starting_made asked here with old | same
      · exact Or.inl ⟨u, a, old⟩
      · cases same
        exact Or.inr .issued
    | check _ spent =>
      rcases starting_made spent here with old | same
      · exact Or.inl ⟨u, a, old⟩
      · cases same
  | inr c =>
    obtain ⟨ch, spec, found, command⟩ := now
    have kept : ∀ {y}, SupervisorStep s.sup y s'.sup → (∀ t a, y = .spawned t a c →
        x = .supervisor y) → Holds s.sup (.inr c) token ∨ Hands s s' x (.inr c) token := by
      intro y one named
      rw [endpoint_kept one] at command
      rcases command_made one found with ⟨old, had, same⟩ | ⟨t, u, a, st, tok, rfl, here, _, same⟩
      · exact Or.inl ⟨old, spec, had, same.trans command⟩
      · rw [same] at command
        have tokens := spawnCommand_token command
        subst tokens
        rw [named t a rfl]
        exact Or.inr (.passed ⟨u, a, here⟩ fun _ => spawned_passes one)
    cases step with
    | supervisor step => exact kept step fun _ _ _ => rfl
    | broker => exact Or.inl ⟨ch, spec, found, command⟩
    | issue asked => exact kept asked fun _ _ same => by cases same
    | check _ spent => exact kept spent fun _ _ same => by cases same

theorem held_issued (run : FleetRun env endpoint acts s) :
    ∀ {o token}, Holds s.sup o token → ∃ t a n service, .issue t a n service token ∈ acts := by
  refine run_history (p := fun acts (s : Fleet) => ∀ {o token}, Holds s.sup o token →
    ∃ t a n service, .issue t a n service token ∈ acts) ?_ ?_ run
  · intro o token held
    cases o with
    | inl t =>
      obtain ⟨u, a, here⟩ := held
      cases here
    | inr c =>
      obtain ⟨ch, spec, found, _⟩ := held
      cases found
  · intro acts v x w _ step ih o token now
    have earlier : Holds v.sup o token ∨ (∃ t, Holds v.sup (.inl t) token) ∨
        ∃ t a n service, x = .issue t a n service token := by
      rcases holds_step step now with old | hands
      · exact Or.inl old
      · cases hands with
        | issued => exact Or.inr (Or.inr ⟨_, _, _, _, rfl⟩)
        | passed had => exact Or.inr (Or.inl ⟨_, had⟩)
    rcases earlier with old | ⟨t, old⟩ | ⟨t, a, n, service, rfl⟩
    · obtain ⟨t, a, n, service, mem⟩ := ih old
      exact ⟨t, a, n, service, by simp [mem]⟩
    · obtain ⟨t, a, n, service, mem⟩ := ih old
      exact ⟨t, a, n, service, by simp [mem]⟩
    · exact ⟨t, a, n, service, by simp⟩

/-- Fewer than 2^64 tokens have been generated. -/
def Few (acts : List FleetAct) : Prop := taken mintTakes (acts.flatMap brokerPart) < 2 ^ 64

theorem few_before {bs : List FleetAct} (few : Few (acts ++ bs)) : Few acts := by
  unfold Few at few ⊢
  rw [List.flatMap_append, taken_append] at few
  omega

theorem issue_once (run : FleetRun env endpoint acts s) (few : Few acts) {i j : Nat} {b : AppId}
    {m : Nat} {service' : String} (here : acts[i]? = some (.issue t a n service token))
    (there : acts[j]? = some (.issue t' b m service' token)) : i = j := by
  refine part_once (g := brokerPart) (c := .issue n service token) (d := .issue m service' token) ?_
    here rfl there rfl
  intro p q first second
  have call : ∀ {p n service}, (acts.flatMap brokerPart)[p]? = some (.issue n service token) →
      IssueCall (acts.flatMap brokerPart) p service token := by
    intro p n service first
    obtain ⟨l, filled⟩ := issue_from_mint (broker_run run) first
    obtain ⟨ns, ctr, mint⟩ := filled_by_mint filled
    exact ⟨n, l, ns, ctr, filled.1, mint, first⟩
  exact issue_unique (broker_run run) few (call first) (call second)

/-- No two have the same token. -/
theorem held_once (run : FleetRun env endpoint acts s) (few : Few acts) :
    ∀ {o o' token}, Holds s.sup o token → Holds s.sup o' token → o = o' := by
  induction run with
  | nil =>
    rintro (t | c) o' token held
    · obtain ⟨u, a, here⟩ := held
      cases here
    · obtain ⟨ch, spec, found, _⟩ := held
      cases found
  | @snoc acts v w x before last ih =>
    have ih := @ih (few_before few)
    have run := before.snoc last
    -- what is issued now has nobody before, and what is passed on leaves the task that had it
    have fresh : ∀ {t a n service token o}, x = .issue t a n service token →
        ¬ Holds v.sup o token := by
      rintro t a n service token o rfl held
      obtain ⟨d, b, m, service', mem⟩ := held_issued before held
      obtain ⟨i, there⟩ := List.mem_iff_getElem?.mp mem
      have inside := (List.getElem?_eq_some_iff.mp there).1
      have now : (acts ++ [.issue t a n service token])[acts.length]? =
          some (.issue t a n service token) := by simp
      have old : (acts ++ [.issue t a n service token])[i]? =
          some (.issue d b m service' token) := by
        rw [List.getElem?_append_left inside, there]
      have same := issue_once run few now old
      omega
    have passed : ∀ {o o' token}, Holds v.sup o token → Holds w.sup o token →
        Hands v w x o' token → o = o' := by
      intro o o' token held still hands
      cases hands with
      | issued => exact absurd held (fresh rfl)
      | passed had gone =>
        rw [ih held had] at still
        exact absurd still (gone _)
    intro o o' token now now'
    rcases holds_step last now with old | hands
    · rcases holds_step last now' with old' | hands'
      · exact ih old old'
      · exact passed old now hands'
    · rcases holds_step last now' with old' | hands'
      · exact (passed old' now' hands).symm
      · cases hands <;> cases hands' <;> rfl

theorem starting_issued (run : FleetRun env endpoint acts s) :
    ∀ {t u a token}, s.sup.task t = .starting u a token →
      ∃ n st, s.sup.app a = some st ∧ .issue t a n st.spec.service token ∈ acts := by
  refine run_history (p := fun acts (s : Fleet) => ∀ {t u a token},
    s.sup.task t = .starting u a token →
      ∃ n st, s.sup.app a = some st ∧ .issue t a n st.spec.service token ∈ acts) ?_ ?_ run
  · intro t u a token here
    cases here
  · intro acts v x w _ step ih t u a token here
    have kept : ∀ {y}, SupervisorStep v.sup y w.sup → v.sup.task t = .starting u a token →
        ∃ n st, w.sup.app a = some st ∧ .issue t a n st.spec.service token ∈ acts ++ [x] := by
      intro y one old
      obtain ⟨n, st, found, mem⟩ := ih old
      obtain ⟨st', found', same⟩ := spec_held one found (by rw [old]; rfl)
      exact ⟨n, st', found', by rw [same]; simp [mem]⟩
    cases step with
    | supervisor step own =>
      rcases starting_made step here with old | rfl
      · exact kept step old
      · exact absurd trivial own
    | broker =>
      obtain ⟨n, st, found, mem⟩ := ih here
      exact ⟨n, st, found, by simp [mem]⟩
    | @issue d b st n tok v' w' asked found stored =>
      rcases starting_made asked here with old | same
      · exact kept asked old
      · cases same
        refine ⟨n, st, ?_, by simp⟩
        cases asked with
        | issue => exact found
    | check _ spent =>
      rcases starting_made spent here with old | same
      · exact kept spent old
      · cases same

/-- The token was issued for the service at position `j`, and the process started after that by the
    task that asked for it. -/
def BornAt (acts : List FleetAct) (c : ChildId) (token service : String) (j : Nat) : Prop :=
  ∃ (p : Nat) (t : TokimoSupervisor.TaskId) (a : AppId) (n : Nat), j < p ∧
    acts[j]? = some (.issue t a n service token) ∧ acts[p]? = some (.supervisor (.spawned t a c))

theorem endpoint_same (run : FleetRun env endpoint acts s) : s.sup.endpoint = endpoint := by
  refine run_history (p := fun _ (v : Supervisor) => v.endpoint = endpoint) rfl ?_
    (supervisor_run run)
  intro _ v y v' _ step ih
  exact (endpoint_kept step).trans ih

theorem child_born (run : FleetRun env endpoint acts s) :
    ∀ {c ch}, s.sup.child c = some ch → ∃ token spec j,
      ch.command = spawnCommand endpoint token spec ∧ BornAt acts c token spec.service j := by
  refine run_history (p := fun acts (s : Fleet) => ∀ {c ch}, s.sup.child c = some ch →
    ∃ token spec j, ch.command = spawnCommand endpoint token spec ∧
      BornAt acts c token spec.service j) ?_ ?_ run
  · intro c ch found
    cases found
  · intro acts v x w before step ih c ch now
    have longer : ∀ {token service j}, BornAt acts c token service j →
        BornAt (acts ++ [x]) c token service j := by
      rintro token service j ⟨p, t, a, n, order, issued, spawned⟩
      have inside := (List.getElem?_eq_some_iff.mp spawned).1
      refine ⟨p, t, a, n, order, ?_, ?_⟩
      · rwa [List.getElem?_append_left (by omega)]
      · rwa [List.getElem?_append_left inside]
    have kept : ∀ {old : Child}, v.sup.child c = some old → old.command = ch.command →
        ∃ token spec j, ch.command = spawnCommand endpoint token spec ∧
          BornAt (acts ++ [x]) c token spec.service j := by
      intro old had same
      obtain ⟨token, spec, j, command, born⟩ := ih had
      exact ⟨token, spec, j, same.symm.trans command, longer born⟩
    cases step with
    | supervisor one =>
      rcases command_made one now with ⟨old, had, same⟩ | ⟨t, u, a, st, tok, rfl, here, found, same⟩
      · exact kept had same
      · obtain ⟨n, st', found', mem⟩ := starting_issued before here
        rw [found] at found'
        cases found'
        obtain ⟨j, issued⟩ := List.mem_iff_getElem?.mp mem
        have inside := (List.getElem?_eq_some_iff.mp issued).1
        rw [endpoint_same before] at same
        refine ⟨tok, st.spec, j, same, acts.length, t, a, n, inside, ?_, by simp⟩
        rwa [List.getElem?_append_left inside]
    | broker => exact kept now rfl
    | issue asked =>
      rcases command_made asked now with ⟨old, had, same⟩ | ⟨_, _, _, _, _, label, _⟩
      · exact kept had same
      · cases label
    | check _ spent =>
      rcases command_made spent now with ⟨old, had, same⟩ | ⟨_, _, _, _, _, label, _⟩
      · exact kept had same
      · cases label

def fleetTouch : FleetAct → Option (String × Option String)
  | .issue _ _ _ service token => some (service, some token)
  | .check _ h _ => some (h.service, none)
  | _ => none

theorem fleet_ledger :
    Ledger (FleetStep env) (fun s => s.world.broker.tokens) fleetTouch where
  write := by
    intro s x s' service token step touch
    cases step with
    | issue _ _ stored =>
      cases touch
      exact token_ledger.write stored rfl
    | check step =>
      cases touch
      exact token_ledger.write step rfl
    | supervisor | broker => cases touch
  keep := by
    intro s x s' step touch
    cases step with
    | supervisor => rfl
    | @broker b w step own =>
      have free : tokenTouch b = none := by
        cases b <;> first | rfl | exact absurd trivial own
      exact token_ledger.keep step free
    | issue | check => cases touch

theorem token_good_iff (run : FleetRun env endpoint acts s) (few : Few acts) {j : Nat}
    (issued : acts[j]? = some (.issue t a n service token)) :
    (s.world.broker.consumeToken service token).1 = true ↔
      ∀ m x, j < m → acts[m]? = some x → ¬ Touches fleetTouch service x := by
  rw [consume_accepts]
  refine full_iff_untouched fleet_ledger run issued rfl fun m x there touched => ?_
  cases x with
  | issue t' b m' service' token' =>
    cases touched
    exact issue_once run few there issued
  | check | supervisor | broker => cases touched

/-- What a started process can do with its token: its client passes the token check if and only if,
    since the token was issued for it, its service has been issued no other one and nobody has
    said Hello for it. -/
theorem child_let_in_iff (run : FleetRun env endpoint acts s) (few : Few acts) {ch : Child}
    (born : s.sup.child c = some ch) : ∃ token spec j,
      ch.command = spawnCommand endpoint token spec ∧ BornAt acts c token spec.service j ∧
      (Leaves spec tokenVar → ∀ inherited, ∃ cfg, fromEnv (processEnv inherited ch.command) = .ok cfg ∧
        ((s.world.broker.consumeToken spec.service cfg.authToken).1 = true ↔
          ∀ m x, j < m → acts[m]? = some x → ¬ Touches fleetTouch spec.service x)) := by
  obtain ⟨token, spec, j, command, p, t, a, n, order, issued, spawned⟩ := child_born run born
  refine ⟨token, spec, j, command, ⟨p, t, a, n, order, issued, spawned⟩, fun leaves inherited => ?_⟩
  rw [command]
  refine ⟨_, fromEnv_found spawned_socket spawned_token, ?_⟩
  rw [left_alone leaves]
  exact token_good_iff run few issued

theorem check_finds (step : FleetStep env s (.check k h true) s') :
    s.world.broker.tokens h.service = some h.authToken := by
  cases step with
  | check step =>
    cases step with
    | consume _ verdict => exact consume_accepts.mp verdict.symm

theorem check_filled (run : FleetRun env endpoint acts s) {i : Nat}
    (here : acts[i]? = some (.check k h true)) :
    ∃ j t a n, FilledBy fleetTouch acts h.service h.authToken i j ∧
      acts[j]? = some (.issue t a n h.service h.authToken) := by
  obtain ⟨j, filled⟩ := found_from_latest fleet_ledger run rfl here fun _ _ _ one => check_finds one
  obtain ⟨_, ⟨b, there, written⟩, _⟩ := id filled
  cases b with
  | issue t a n service token =>
    simp only [fleetTouch, Option.some.injEq, Prod.mk.injEq] at written
    obtain ⟨rfl, rfl⟩ := written
    exact ⟨j, t, a, n, filled, there⟩
  | check => simp [fleetTouch] at written
  | supervisor | broker => cases written

/-- The latest token of the service was asked for at position `j`, and nothing has come between. -/
def LatestIssue (acts : List FleetAct) (i j : Nat) (service token : String) : Prop :=
  j < i ∧ (∃ t a n, acts[j]? = some (.issue t a n service token)) ∧
    ∀ m x, j < m → m < i → acts[m]? = some x → ¬ Touches fleetTouch service x

/-- Every admission is that of a token which the supervisor asked for to start a process of that
    service, the latest one of the service. One process has it at most, and it admits once. -/
theorem admitted_child (run : FleetRun env endpoint acts s) (few : Few acts) {i : Nat}
    (here : acts[i]? = some (.check k h true)) :
    (∃ j, LatestIssue acts i j h.service h.authToken ∧
      ∀ c, Holds s.sup (.inr c) h.authToken → BornAt acts c h.authToken h.service j) ∧
    (∀ c c', Holds s.sup (.inr c) h.authToken → Holds s.sup (.inr c') h.authToken → c = c') ∧
    ∀ i' k' h', acts[i']? = some (.check k' h' true) → h'.authToken = h.authToken → i' = i := by
  obtain ⟨j, t, a, n, filled, issued⟩ := check_filled run here
  refine ⟨⟨j, ⟨filled.1, ⟨t, a, n, issued⟩, filled.2.2⟩, ?_⟩, ?_, ?_⟩
  · rintro c ⟨ch, spec, found, command⟩
    obtain ⟨token, spec', j', command', p, t', a', n', order, issued', spawned⟩ :=
      child_born run found
    rw [endpoint_same run] at command
    have same := spawnCommand_token (command'.symm.trans command)
    subst same
    have place := issue_once run few issued issued'
    subst place
    rw [issued] at issued'
    simp only [Option.some.injEq, FleetAct.issue.injEq] at issued'
    obtain ⟨rfl, rfl, rfl, _⟩ := issued'
    exact ⟨p, t, a, n, order, issued, spawned⟩
  · intro c c' holds holds'
    cases held_once run few holds holds'
    rfl
  · intro i' k' h' there same
    obtain ⟨j', t', a', n', filled', issued'⟩ := check_filled run there
    rw [same] at issued'
    have place := issue_once run few issued' issued
    subst place
    exact fillings_distinct filled' filled there rfl here rfl

def bornActs : List FleetAct :=
  [.supervisor (.register videoSpec 0), .supervisor (.ensureUp "video" 1),
    .supervisor (.ensureGet 1 (some 0)), .supervisor (.ensureLock 1 0), .supervisor (.absent 1 0),
    .broker (.mint 0 "video" 0 0 videoToken), .issue 1 0 0 "video" videoToken,
    .supervisor (.spawned 1 0 0)]

theorem born_run : ∃ s, FleetRun standardEnv "bus" bornActs s ∧
    s.sup.child 0 = some ⟨spawnCommand "bus" videoToken videoSpec, .alive⟩ ∧
    s.world.broker.tokens "video" = some videoToken ∧ s.world.phase 0 = .unused := by
  have free : ((Supervisor.new "bus").insertApp 0 videoSpec).Free 0 := by
    intro t holds
    cases holds
  have moves : ∀ {s : Fleet} {y : SupervisorAct} {v : Supervisor}, SupervisorStep s.sup y v →
      ¬ Shared y → FleetStep standardEnv s (.supervisor y) { s with sup := v } :=
    FleetStep.supervisor
  have run : FleetRun standardEnv "bus" [] (Fleet.start "bus") := Run.nil
  have run := run.snoc (moves (@SupervisorStep.register _ videoSpec 0 rfl) id)
  have run := run.snoc (moves (@SupervisorStep.ensureUp _ "video" 1 rfl) id)
  have run := run.snoc (moves (.ensureGet (a := 0) (setTask_here _ _ _) rfl) id)
  have unlocked := setTask_free (t := 1) (p := .ensureLock 0) (setTask_free (t := 1)
    (p := .ensure "video") free rfl) rfl
  have run := run.snoc (moves (.ensureLock (setTask_here _ _ _) unlocked) id)
  have run := run.snoc (moves (.absent (setTask_here _ _ _) (by
    intro c full
    cases full)) id)
  have run := run.snoc (.broker (@Step.mint _ _ 0 "video" _ 0 rfl rfl) id)
  have run := run.snoc (.issue (.issue (setTask_here _ _ _) rfl) rfl (.issue (n := 0) rfl))
  have run := run.snoc (moves (.spawned (c := 0) (setTask_here _ _ _) rfl rfl) id)
  exact ⟨_, run, rfl, rfl, rfl⟩

theorem born_few : Few bornActs := by
  unfold Few
  decide

theorem bornActs_issue {j : Nat} (issued : bornActs[j]? = some (.issue t a n service token)) :
    j = 6 ∧ service = "video" := by
  have inside : j < 8 := (List.getElem?_eq_some_iff.mp issued).1
  interval_cases j <;> simp [bornActs] at issued
  exact ⟨rfl, issued.2.2.2.1.symm⟩

def staleEnv : Environment := fun name => if name = tokenVar then some "old" else none

theorem born_let_in : ∃ s ch cfg, FleetRun standardEnv "bus" bornActs s ∧
    s.sup.child 0 = some ch ∧ fromEnv (processEnv staleEnv ch.command) = .ok cfg ∧
    (s.world.broker.consumeToken "video" cfg.authToken).1 = true := by
  obtain ⟨s, run, born, _⟩ := born_run
  obtain ⟨token, spec, j, command, ⟨p, t, a, n, order, issued, spawned⟩, let_in⟩ :=
    child_let_in_iff run born_few born
  obtain ⟨rfl, service⟩ := bornActs_issue issued
  have leaves : Leaves spec tokenVar := by
    have vars := congrArg Command.env command
    simp only [spawnCommand, videoSpec, List.append_nil, List.cons_append, List.cons.injEq,
      List.nil_append, List.nil_eq] at vars
    intro value mem
    rw [vars.2.2.2] at mem
    cases mem
  obtain ⟨cfg, found, good⟩ := let_in leaves staleEnv
  rw [service] at good
  refine ⟨s, _, cfg, run, born, found, good.mpr fun m x later there => ?_⟩
  have inside := (List.getElem?_eq_some_iff.mp there).1
  obtain rfl : m = 7 := by
    simp only [bornActs, List.length_cons, List.length_nil] at inside
    omega
  cases there
  rintro ⟨_, touched⟩
  cases touched

def joinedActs : List FleetAct :=
  bornActs ++ [.broker (.accept 0), .broker (.hello 0 (videoHello videoToken)),
    .check 0 (videoHello videoToken) true]

theorem joined_run : ∃ s, FleetRun standardEnv "bus" joinedActs s ∧
    Holds s.sup (.inr 0) videoToken := by
  obtain ⟨s, run, born, stored, free⟩ := born_run
  have run := run.snoc (.broker (.accept free) id)
  have run := run.snoc (.broker (.hello (h := videoHello videoToken) (Function.update_self _ _ _)) id)
  have run := run.snoc (.check (.consume (k := 0) (h := videoHello videoToken) rfl
    (consume_accepts.mpr stored).symm) .hello)
  have place := endpoint_same run
  exact ⟨_, run, _, videoSpec, born, by rw [place]⟩

theorem joined_alone : ∃ s, FleetRun standardEnv "bus" joinedActs s ∧
    (∀ c, Holds s.sup (.inr c) videoToken → 0 = c) ∧
    ∀ i k h, joinedActs[i]? = some (.check k h true) → h.authToken = videoToken → i = 10 := by
  obtain ⟨s, run, held⟩ := joined_run
  have few : Few joinedActs := by
    unfold Few
    decide
  have here : joinedActs[10]? = some (.check 0 (videoHello videoToken) true) := rfl
  obtain ⟨_, alone, once⟩ := admitted_child run few here
  exact ⟨s, run, fun c other => alone 0 c held other, once⟩

end TokimoSupervised

import TokimoBus.Teardown

/-!
Sessions that end while others of the same name have registered. A generation names
one registration as long as the counter has not gone all the way round, so that
`remove_if` takes out the entry of the session that calls it and no other, and the
last session registered under a name is found under it until it removes itself.
-/
namespace TokimoRegistrations
open TokimoFrame TokimoOutbound TokimoBroker TokimoSession TokimoIdentity TokimoProgress
open TokimoTeardown TokimoWire LabelledRuns WrappingCounter
variable {env : Env} {w w' : World} {a : Act} {acts : List Act} {k : ConnId} {s : Session}

def ends : Act → Option ConnId
  | .rollback k | .detach k | .check k _ | .forget k | .removeIf k | .abort k => some k
  | _ => none

def withdraws : Act → Option ConnId
  | .rollback k | .removeIf k => some k
  | _ => none

def attached : Stage → Bool
  | .probe | .read | .fan _ _ | .deliver _ _ _ | .detach => true
  | _ => false

/-- What the sessions of a run have left of each other. -/
structure Unharmed (env : Env) (acts : List Act) (w : World) : Prop where
  distinct : ∀ i j k k' s s', At acts i (.generate k s) → At acts j (.generate k' s') →
    s.generation = s'.generation → i = j
  registry : ∀ i a k v v', At acts i a → BrokerRun env (acts.take i) v → Step env v a v' →
    ends a = some k → ∀ name, v'.broker.registry.get name ≠ v.broker.registry.get name →
    ∃ s j, v.session k = some s ∧ name = s.service ∧
      v.broker.registry.get name = some (s.entry k) ∧ j < i ∧ At acts j (.publish k (s.entry k))
  sessions : ∀ i a k v v', At acts i a → BrokerRun env (acts.take i) v → Step env v a v' →
    ends a = some k → ∀ key, v'.broker.sessions key ≠ v.broker.sessions key →
    ∃ s, v.session k = some s ∧ key = (s.service, s.generation)
  current : ∀ i k e, At acts i (.publish k e) →
    (∀ j k' e', i < j → At acts j (.publish k' e') → e'.service ≠ e.service) →
    (∀ a ∈ acts, withdraws a ≠ some k) → w.broker.registry.get e.service = some e
  keys : ∀ key h, w.broker.sessions key = some h → ∃ s stage,
    w.phase h.session = .live s stage ∧ attached stage = true ∧
      key = (s.service, s.generation)

theorem removeIf_elsewhere (r : Registry) {name service : String} (g : UInt64)
    (ne : name ≠ service) : (r.removeIf service g).get name = r.get name := by
  unfold Registry.removeIf Registry.get
  split
  · split
    · exact Function.update_of_ne ne _ _
    · rfl
  · rfl

theorem removeIf_changes {r : Registry} {name service : String} {g : UInt64}
    (changed : (r.removeIf service g).get name ≠ r.get name) :
    name = service ∧ ∃ e, r.get name = some e ∧ e.generation = g := by
  by_cases same : name = service
  · subst same
    refine ⟨rfl, ?_⟩
    unfold Registry.removeIf Registry.get at changed
    split at changed
    · split at changed
      · exact ⟨_, by assumption, by assumption⟩
      · exact absurd rfl changed
    · exact absurd rfl changed
  · exact absurd (removeIf_elsewhere r g same) changed

theorem entry_of_generation (run : BrokerRun env acts w)
    (few : taken generateTakes acts ≤ 2 ^ 64) (here : w.session k = some s) {name : String}
    {e : ServiceEntry} (found : w.broker.registry.get name = some e)
    (same : e.generation = s.generation) : e = s.entry k := by
  obtain ⟨s', owner, value, _⟩ := (named ⟨_, run⟩).entries name e found
  have generation : s'.generation = s.generation := by
    rw [value] at same
    exact same
  have one := generation_unique run few owner here generation
  rw [one] at value owner
  have session := owner.symm.trans here
  cases session
  exact value

theorem end_changes_registry (run : BrokerRun env acts w)
    (few : taken generateTakes acts ≤ 2 ^ 64) (step : Step env w a w') (ending : ends a = some k)
    {name : String} (changed : w'.broker.registry.get name ≠ w.broker.registry.get name) :
    withdraws a = some k ∧ ∃ s, w.session k = some s ∧ name = s.service ∧
      w.broker.registry.get name = some (s.entry k) := by
  have removed : ∀ {s : Session}, w.session k = some s →
      (w.broker.registry.removeIf s.service s.generation).get name ≠
        w.broker.registry.get name →
      ∃ s, w.session k = some s ∧ name = s.service ∧
        w.broker.registry.get name = some (s.entry k) := by
    intro s here changed
    obtain ⟨same, e, found, generation⟩ := removeIf_changes changed
    have value := entry_of_generation run few here found generation
    rw [value] at found
    exact ⟨s, here, same, found⟩
  cases step with
  | rollback here =>
    simp only [ends, Option.some.injEq] at ending
    subst ending
    exact ⟨rfl, removed (session_of_phase here) changed⟩
  | removeIf here =>
    simp only [ends, Option.some.injEq] at ending
    subst ending
    exact ⟨rfl, removed (session_of_phase here) changed⟩
  | detach | check | forget | abort => exact absurd rfl changed
  | _ => simp [ends] at ending

theorem end_changes_sessions (step : Step env w a w') (ending : ends a = some k)
    {key : String × UInt64} (changed : w'.broker.sessions key ≠ w.broker.sessions key) :
    ∃ s, w.session k = some s ∧ key = (s.service, s.generation) := by
  cases step with
  | @detach j s here =>
    simp only [ends, Option.some.injEq] at ending
    subst ending
    refine ⟨s, session_of_phase here, ?_⟩
    by_contra ne
    apply changed
    simp [World.setPhase, World.withBroker, Broker.removeSession, ne]
  | rollback | check | forget | removeIf | abort => exact absurd rfl changed
  | _ => simp [ends] at ending

theorem entry_keeps (run : BrokerRun env acts w) (few : taken generateTakes acts ≤ 2 ^ 64)
    (step : Step env w a w') {name : String} {e : ServiceEntry}
    (now : w.broker.registry.get name = some e)
    (other : ∀ k' e', a = .publish k' e' → e'.service ≠ name)
    (stays : withdraws a ≠ some e.tx) : w'.broker.registry.get name = some e := by
  have kept : ∀ j, ends a = some j → w'.broker.registry.get name = some e := by
    intro j ending
    by_contra gone
    have changed : w'.broker.registry.get name ≠ w.broker.registry.get name := by
      rw [now]
      exact gone
    obtain ⟨withdrawn, s, _, _, value⟩ := end_changes_registry run few step ending changed
    have same := now.symm.trans value
    cases same
    exact stays withdrawn
  cases step with
  | rollback => exact kept _ rfl
  | removeIf => exact kept _ rfl
  | @publish j s here =>
    have ne : name ≠ s.service := fun eq => other _ _ rfl eq.symm
    change Function.update w.broker.registry.entries s.service _ name = some e
    rw [Function.update_of_ne ne]
    exact now
  | _ => exact now

/-- The last entry inserted under a name is there until its session withdraws it. -/
theorem last_entry_current (run : BrokerRun env acts w) :
    taken generateTakes acts ≤ 2 ^ 64 → ∀ i k e, At acts i (.publish k e) →
    (∀ j k' e', i < j → At acts j (.publish k' e') → e'.service ≠ e.service) →
    (∀ a ∈ acts, withdraws a ≠ some k) → w.broker.registry.get e.service = some e := by
  induction run with
  | nil =>
    intro _ i k e here
    cases here
  | @snoc acts w w' a before step ih =>
    intro few i k e here last stays
    rw [taken_append] at few
    have few : taken generateTakes acts ≤ 2 ^ 64 := by omega
    have bound := (List.getElem?_eq_some_iff.mp here).1
    rw [List.length_append, List.length_singleton] at bound
    by_cases fresh : i = acts.length
    · subst fresh
      have label : a = .publish k e := by simpa [At] using here
      subst label
      cases step with
      | publish here =>
        change Function.update w.broker.registry.entries _ _ _ = _
        exact Function.update_self _ _ _
    · have inside : i < acts.length := by omega
      have old : At acts i (.publish k e) := by
        unfold At at here ⊢
        rwa [List.getElem?_append_left inside] at here
      have now := ih few i k e old
        (fun j k' e' order there => last j k' e' order (by
          have within := (List.getElem?_eq_some_iff.mp there).1
          rw [At, List.getElem?_append_left within]
          exact there))
        (fun b mem => stays b (List.mem_append_left _ mem))
      obtain ⟨v, v', _, one, _⟩ := run_at before old
      have owner : e.tx = k := by
        cases one with
        | publish => rfl
      apply entry_keeps before few step now
      · intro k' e' label
        refine last acts.length k' e' inside ?_
        rw [At, label]
        simp
      · rw [owner]
        exact stays a (by simp)

theorem key_attached (reach : BrokerReachable env w) {key : String × UInt64} {h : SessionHandle}
    (found : w.broker.sessions key = some h) : ∃ s stage,
    w.phase h.session = .live s stage ∧ attached stage = true ∧
      key = (s.service, s.generation) := by
  obtain ⟨s, owner, same⟩ := (named reach).attached key h found
  obtain ⟨low, high⟩ := (held reach).attached key h.session found
  cases phase : w.phase h.session with
  | live s' stage =>
    have session := session_of_phase phase
    rw [owner] at session
    cases session
    refine ⟨s, stage, rfl, ?_, same⟩
    rw [phase] at low high
    cases stage <;> simp [Phase.rank, Stage.rank, attached] at low high ⊢
  | _ => simp [World.session, phase, Phase.session] at owner

theorem unharmed (run : BrokerRun env acts w) (few : taken generateTakes acts ≤ 2 ^ 64) :
    Unharmed env acts w := by
  have early : ∀ i, taken generateTakes (acts.take i) ≤ 2 ^ 64 := by
    intro i
    have part := @taken_take_le _ generateTakes acts i
    omega
  constructor
  · intro i j k k' s s' here there same
    exact taken_once generate_counts run few here (v := s.generation) rfl there
      (by rw [same]; rfl)
  · intro i a k v v' here before step ending name changed
    obtain ⟨_, s, owner, service, found⟩ :=
      end_changes_registry before (early i) step ending changed
    obtain ⟨j, order, there⟩ := mem_take_index (entry_published before found)
    exact ⟨s, j, owner, service, found, order, there⟩
  · intro i a k v v' here before step ending key changed
    exact end_changes_sessions step ending changed
  · intro i k e here last stays
    exact last_entry_current run few i k e here last stays
  · intro key h found
    exact key_attached ⟨_, run⟩ found

/-- The teardown of a session that another one has replaced leaves the registry alone. -/
theorem superseded_ends (reading : w.phase k = .live s .read)
    (replaced : w.broker.shouldRemove s.service s.generation = false) :
    Run (Step env) w [.hangup k, .detach k, .check k false, .removeIf k]
      ((w.withBroker ((w.broker.removeSession s.service s.generation).withRegistry
        (w.broker.registry.removeIf s.service s.generation))).setPhase k (.live s .abort)) := by
  have run : Run (Step env) w [] w := Run.nil
  have run := run.snoc (Step.hangup reading)
  have run := run.snoc (Step.detach (setPhase_here _ _ _))
  rw [setPhase_broker] at run
  have run := run.snoc (@Step.check _ _ k s false (setPhase_here _ _ _) replaced.symm)
  rw [setPhase_setPhase] at run
  have run := run.snoc (Step.removeIf (setPhase_here _ _ _))
  rw [setPhase_broker] at run
  exact run

def succeededActs : List Act :=
  videoActs ++ (issueActs standardEnv 0 "video" 0 1 ++
    connectActs standardEnv 1 ⟨videoHello (tokenText 0 1 1), 2, 2⟩ 1) ++
      [Act.hangup 0, .detach 0, .check 0 false, .removeIf 0] ++ [Act.abort 0]

theorem succeeded_run : ∃ w, BrokerRun standardEnv succeededActs w := by
  have second : Run (Step standardEnv) videoWorld (issueActs standardEnv 0 "video" 0 1 ++
      connectActs standardEnv 1 ⟨videoHello (tokenText 0 1 1), 2, 2⟩ 1)
      (World.connected standardEnv (World.issued standardEnv videoWorld "video" 0) 1
        (videoHello (tokenText 0 1 1)) 1) := by
    refine run_append (token_issued standardEnv videoWorld (n := 0) rfl "video" 0)
      (connects rfl rfl rfl rfl ?_)
    change Fits toVecNamed (.helloAck ⟨2, Duration.fromSecs 15⟩)
    decide +kernel
  have first := run_append (run_append video_run second)
    (@superseded_ends standardEnv _ 0 videoSession rfl (by decide))
  exact ⟨_, first.snoc (Step.abort (setPhase_here _ _ _))⟩

theorem succeeded_unharmed : ∃ w, BrokerRun standardEnv succeededActs w ∧
    Unharmed standardEnv succeededActs w ∧
      w.broker.registry.get "video" =
        some (Session.entry ⟨videoHello (tokenText 0 1 1), 2, 2⟩ 1) := by
  obtain ⟨w, run⟩ := succeeded_run
  have kept := unharmed run (by decide)
  refine ⟨w, run, kept, kept.current 18 1 _ rfl ?_ (by decide)⟩
  intro j k e later here
  have mem := index_mem_drop later here
  simp [succeededActs, videoActs, issueActs, connectActs] at mem

def enrolActs (env : Env) (k : ConnId) (s : Session) (ctr : UInt64) : List Act :=
  issueActs env 0 s.service 0 ctr ++
    [Act.accept k, .hello k s.hello, .consume k s.hello true, .clientId k s.clientId, .generate k s]

theorem enrolActs_length (env : Env) (k : ConnId) (s : Session) (ctr : UInt64) :
    (enrolActs env k s ctr).length = 7 :=
  rfl

theorem enrols (env : Env) (w : World) (idle : w.minted 0 = none) (fresh : w.phase k = .unused) :
    ∃ s v, s.generation = w.broker.registry.nextGen + 1 ∧
      Run (Step env) w (enrolActs env k s w.broker.counter) v ∧
      v.broker.registry.nextGen = w.broker.registry.nextGen + 1 ∧ v.minted 0 = none ∧
      ∀ j : Nat, j ≠ k → v.phase j = w.phase j := by
  let token := tokenText 0 env.pid w.broker.counter
  let x := World.issued env w "video" 0
  have verdict : (x.broker.consumeToken "video" token).1 = true := by
    simp [x, World.issued, World.withBroker, Broker.storeToken, Broker.consumeToken, token]
  have run := token_issued env w idle "video" 0
  have run := run.snoc (Step.accept (k := k) fresh)
  have run := run.snoc (@Step.hello _ _ k (videoHello token) (setPhase_here _ _ _))
  rw [setPhase_setPhase] at run
  have run := run.snoc (@Step.consume _ _ k (videoHello token) true (setPhase_here _ _ _)
    verdict.symm)
  rw [setPhase_broker] at run
  have run := run.snoc (@Step.clientId _ _ k (videoHello token) (setPhase_here _ _ _))
  rw [setPhase_broker] at run
  have run := run.snoc (@Step.generate _ _ k (videoHello token) _ _ (setPhase_here _ _ _) rfl)
  rw [setPhase_broker] at run
  refine ⟨sessionOf x.broker (videoHello token), _, rfl, run, rfl, idle, ?_⟩
  intro j ne
  exact Function.update_of_ne ne _ _

theorem enrol_many (env : Env) (w : World) (idle : w.minted 0 = none) (m n : Nat)
    (fresh : ∀ j : Nat, m ≤ j → w.phase j = .unused) :
    ∃ acts v, Run (Step env) w acts v ∧ v.minted 0 = none ∧
      (∀ j : Nat, m + n ≤ j → v.phase j = .unused) ∧
      v.broker.registry.nextGen = w.broker.registry.nextGen + UInt64.ofNat n := by
  induction n with
  | zero => exact ⟨[], w, Run.nil, idle, fresh, by simp⟩
  | succ n ih =>
    obtain ⟨acts, v, run, still, unused, counter⟩ := ih
    obtain ⟨s, v', _, more, next, quiet, others⟩ :=
      @enrols (m + n) env v still (unused _ (Nat.le_refl _))
    refine ⟨_, v', run_append run more, quiet, ?_, ?_⟩
    · intro j later
      rw [others j (by omega)]
      exact unused j (by omega)
    · rw [next, counter, UInt64.ofNat_add, UInt64.add_assoc]
      rfl

theorem generation_handed_out_twice : ¬ ∀ acts w, BrokerRun standardEnv acts w →
    Unharmed standardEnv acts w := by
  intro claim
  obtain ⟨s, x, first, enter, one, idle, unused⟩ :=
    @enrols 0 standardEnv World.init rfl rfl
  have fresh : ∀ j : Nat, 1 ≤ j → x.phase j = .unused := by
    intro j later
    rw [unused j (by omega)]
    rfl
  obtain ⟨acts, y, many, still, rest, last⟩ :=
    enrol_many standardEnv x idle 1 (2 ^ 64 - 1) fresh
  obtain ⟨s', z, second, again, _⟩ :=
    @enrols (1 + (2 ^ 64 - 1)) standardEnv y still (rest _ (Nat.le_refl _))
  have same : s.generation = s'.generation := by
    rw [first, second, last, one]
    decide
  have run := run_append (run_append enter many) again
  have before : (enrolActs standardEnv 0 s World.init.broker.counter ++ acts).length =
      acts.length + 7 := by
    rw [List.length_append, enrolActs_length, Nat.add_comm]
  have places := (claim _ _ run).distinct 6 (acts.length + 7 + 6) 0
    (1 + (2 ^ 64 - 1)) s s' rfl ?_ same
  · omega
  · rw [At, List.getElem?_append_right (by omega), before, Nat.add_sub_cancel_left]
    rfl

end TokimoRegistrations

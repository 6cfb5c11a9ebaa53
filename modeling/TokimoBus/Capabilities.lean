import TokimoBus.CallResults
import TokimoBus.Registrations

/-!
What the capability cache says about the registered session. The cache and the registry are
two tables: a probe reads the registry and then stores, a teardown reads the registry and then
removes, and an entry is taken out of the registry later still.
-/
namespace TokimoCapabilities
open TokimoFrame TokimoOutbound TokimoBroker TokimoSession TokimoCalls TokimoIdentity
open TokimoResults TokimoRegistrations TokimoProgress TokimoWire LabelledRuns WrappingCounter
variable {env : Env} {w w' : World} {a : Act} {acts : List Act} {c : CallId} {k : ConnId}
  {s : Session} {service : String} {generation : UInt64} {caps : ServiceCapabilities}

def registering : Phase → Bool
  | .live _ .ack | .live _ .rollback | .live _ .attach | .live _ .probe => true
  | _ => false

def removing : Phase → Bool
  | .live _ .removeIf => true
  | _ => false

def Settled (w : World) (service : String) : Prop :=
  ∀ k s, w.session k = some s → s.service = service → registering (w.phase k) = false

def Reported (env : Env) (acts : List Act) (w : World) (service : String) (generation : UInt64)
    (caps : ServiceCapabilities) : Prop :=
  ∃ k s c bytes, w.session k = some s ∧ s.service = service ∧ s.generation = generation ∧
    .probe k c ∈ acts ∧ parsedCapabilities env bytes = some caps ∧
    ((∃ h, .localReturn c h (.ok bytes) ∈ acts) ∨
      ∃ resp, .complete c resp ∈ acts ∧ resp.result = .ok bytes)

/-- What the cache holds under a name was reported by the registered session, or that session
    has still to remove it. -/
structure Cached (env : Env) (acts : List Act) (w : World) : Prop where
  current : ∀ service caps, w.broker.capabilities service = some caps →
    ∃ e, w.broker.registry.get service = some e ∧
      (registering (w.phase e.tx) = true ∨ Reported env acts w service e.generation caps)
  leaving : ∀ k s, w.session k = some s → removing (w.phase k) = true →
    w.broker.registry.get s.service = some (s.entry k) → w.broker.capabilities s.service = none

/-- The condition under which the cache is right. A probe stores while its generation is still
    registered and not about to be removed; a teardown forgets while no other session has
    registered; and no session withdraws over a failed HelloAck while the cache has an entry. -/
def Timely (w : World) : Act → Prop
  | .cache c service _ => ∀ generation, (w.call c).origin = .probe service generation →
      w.broker.stillCurrent service generation = true ∧ ∀ k s, w.session k = some s →
        s.service = service → s.generation = generation → removing (w.phase k) = false
  | .forget k => ∀ s, w.session k = some s →
      w.broker.shouldRemove s.service s.generation = true
  | .rollback k => ∀ s, w.session k = some s →
      w.broker.registry.get s.service = some (s.entry k) →
      w.broker.capabilities s.service = none
  | _ => True

theorem reported_snoc (h : Step env w a w') (known : Reported env acts w service generation caps) :
    Reported env (acts ++ [a]) w' service generation caps := by
  obtain ⟨k, s, c, bytes, session, named, same, probed, parsed, answered⟩ := known
  refine ⟨k, s, c, bytes, session_keeps h session, named, same, List.mem_append_left _ probed,
    parsed, ?_⟩
  rcases answered with ⟨hd, mem⟩ | ⟨resp, mem, value⟩
  · exact Or.inl ⟨hd, List.mem_append_left _ mem⟩
  · exact Or.inr ⟨resp, List.mem_append_left _ mem, value⟩

theorem probe_call_spawned (run : BrokerRun env acts w) (begun : w.callPhase c ≠ .unused)
    (task : (w.call c).origin = .probe service generation) : ∃ k s, w.session k = some s ∧
      s.service = service ∧ s.generation = generation ∧ .probe k c ∈ acts := by
  induction run with
  | nil => exact absurd rfl begun
  | @snoc acts w w' a before step ih =>
    by_cases new : w.callPhase c = .unused
    · rcases step_begins step new begun with ⟨x, _, args, host⟩ | ⟨k, s, rfl, session, args⟩ |
        ⟨k, s, inv, _, _, args, _⟩
      · rw [args, host] at task
        cases task
      · rw [args] at task
        cases task
        exact ⟨k, s, session_keeps step session, rfl, rfl, by simp⟩
      · rw [args, appCall_origin] at task
        cases task
    · rw [call_keeps step new] at task
      obtain ⟨k, s, session, named, same, mem⟩ := ih new task
      exact ⟨k, s, session_keeps step session, named, same, List.mem_append_left _ mem⟩

def caching : CallPhase → Option ServiceCapabilities
  | .caching caps => some caps
  | _ => none

theorem step_caching (h : Step env w a w') (now : caching (w'.callPhase c) = some caps) :
    caching (w.callPhase c) = some caps ∨ ∃ bytes, w.callPhase c = .done (.ok bytes) ∧
      parsedCapabilities env bytes = some caps := by
  cases h with
  | @probeCheck d _ _ bytes found _ _ here parsed =>
    rcases moved_to now with old | ⟨rfl, same⟩
    · exact Or.inl old
    · refine Or.inr ⟨bytes, here, ?_⟩
      split at same
      · cases same
        exact parsed
      · cases same
  | spawn _ here =>
    refine Or.inl (moved_from here ?_ now)
    unfold appCall
    split <;> simp [caching]
  | probe _ here | call here | localHit here | localMiss here | localAdmit here
  | localRefuse here | localReturn here | localTimeout here | lookupNone here | permit here
  | refuse here | routeNone here | route here | number here | register here | send here
  | sendClosed here | complete here | senderGone here | elapse here | expire here
  | cancelStart _ here | cancelLocal _ here | cancelAwait _ here | answer _ here
  | answerClosed _ here | probeFail _ here | cache _ here =>
    exact Or.inl (moved_from here (by simp [caching]) now)
  | _ => exact Or.inl now

theorem caching_answered (run : BrokerRun env acts w)
    (now : caching (w.callPhase c) = some caps) :
    ∃ bytes, parsedCapabilities env bytes = some caps ∧
      ((∃ h, .localReturn c h (.ok bytes) ∈ acts) ∨
        ∃ resp, .complete c resp ∈ acts ∧ resp.result = .ok bytes) := by
  induction run with
  | nil => cases now
  | @snoc acts w w' a before step ih =>
    have found : ∃ bytes, parsedCapabilities env bytes = some caps ∧
        ((∃ h, .localReturn c h (.ok bytes) ∈ acts) ∨
          ∃ resp, .complete c resp ∈ acts ∧ resp.result = .ok bytes) := by
      rcases step_caching step now with old | ⟨bytes, done, parsed⟩
      · exact ih old
      · refine ⟨bytes, parsed, ?_⟩
        rcases result_history before done with ⟨hd, _, _, mem⟩ | answered
        · exact Or.inl ⟨hd, mem⟩
        · exact Or.inr answered
    obtain ⟨bytes, parsed, ⟨hd, mem⟩ | ⟨resp, mem, value⟩⟩ := found
    · exact ⟨bytes, parsed, Or.inl ⟨hd, List.mem_append_left _ mem⟩⟩
    · exact ⟨bytes, parsed, Or.inr ⟨resp, List.mem_append_left _ mem, value⟩⟩

theorem step_capabilities (h : Step env w a w')
    (now : w'.broker.capabilities service = some caps) :
    (w.broker.capabilities service = some caps ∧
      (∀ k c s, a = .probe k c → w.session k = some s → s.service ≠ service)) ∨
      ∃ c generation, a = .cache c service caps ∧
        (w.call c).origin = .probe service generation ∧ w.callPhase c = .caching caps := by
  have kept : (∀ k c, a ≠ .probe k c) → w.broker.capabilities service = some caps →
      w.broker.capabilities service = some caps ∧
        ∀ k c s, a = .probe k c → w.session k = some s → s.service ≠ service := by
    intro other old
    exact ⟨old, fun k c s same => absurd same (other k c)⟩
  have removed : ∀ {name : String}, Function.update w.broker.capabilities name none service =
      some caps → name ≠ service ∧ w.broker.capabilities service = some caps := by
    intro name now
    by_cases same : service = name
    · subst same
      rw [Function.update_self] at now
      cases now
    · rw [Function.update_of_ne same] at now
      exact ⟨fun eq => same eq.symm, now⟩
  cases h with
  | @probe k s d here =>
    obtain ⟨ne, old⟩ := removed now
    refine Or.inl ⟨old, ?_⟩
    intro k' d' s' same session
    cases same
    rw [session_of_phase here] at session
    cases session
    exact ne
  | forget here => exact Or.inl (kept (by simp) (removed now).2)
  | @cache d name generation found task here =>
    by_cases same : service = name
    · subst same
      have value : found = caps := by
        simpa [World.setCallPhase, World.withBroker, Broker.storeCapabilities] using now
      subst value
      exact Or.inr ⟨d, generation, rfl, task, here⟩
    · refine Or.inl (kept (by simp) ?_)
      simpa [World.setCallPhase, World.withBroker, Broker.storeCapabilities, same] using now
  | _ => exact Or.inl (kept (by simp) now)

theorem registering_step (h : Step env w a w') (now : registering (w.phase k) = true) :
    registering (w'.phase k) = true ∨ (∃ c, a = .probe k c) ∨ a = .rollback k := by
  have moved : ∀ {j : ConnId} {p q : Phase}, w.phase j = q →
      (registering q = true → registering p = true) →
      registering (Function.update w.phase j p k) = true := by
    intro j p q here same
    exact moved_on (P := fun p => registering p = true) here same now
  cases h with
  | @probe j s c here =>
    by_cases eq : k = j
    · exact Or.inr (Or.inl ⟨c, by rw [eq]⟩)
    · refine Or.inl ?_
      change registering (Function.update w.phase j _ k) = true
      rwa [Function.update_of_ne eq]
  | @rollback j s here =>
    by_cases eq : k = j
    · exact Or.inr (Or.inr (by rw [eq]))
    · refine Or.inl ?_
      change registering (Function.update w.phase j _ k) = true
      rwa [Function.update_of_ne eq]
  | hello here | accept here | noHello here | consume here | reject here | rejectBroken here
  | clientId here | generate here | publish here | ack here | ackBroken here | attach here
  | fanout here | target here | deliver here | undelivered here | fanned here | hangup here
  | detach here | check here | forget here | removeIf here | abort here =>
    exact Or.inl (moved here (by simp [registering]))
  | _ => exact Or.inl now

theorem removing_step (h : Step env w a w') (now : removing (w'.phase k) = true) :
    removing (w.phase k) = true ∨ a = .forget k ∨ a = .check k false := by
  have moved : ∀ {j : ConnId} {p q : Phase}, w.phase j = q → removing p = false →
      removing (Function.update w.phase j p k) = true → removing (w.phase k) = true := by
    intro j p q here idle now
    exact moved_back (P := fun p => removing p = true) here (by simp [idle]) now
  cases h with
  | @forget j s here =>
    by_cases eq : k = j
    · exact Or.inr (Or.inl (by rw [eq]))
    · change removing (Function.update w.phase j _ k) = true at now
      rw [Function.update_of_ne eq] at now
      exact Or.inl now
  | @check j s remove here =>
    by_cases eq : k = j
    · subst eq
      cases remove with
      | false => exact Or.inr (Or.inr rfl)
      | true =>
        rw [setPhase_here] at now
        cases now
    · change removing (Function.update w.phase j _ k) = true at now
      rw [Function.update_of_ne eq] at now
      exact Or.inl now
  | hello here =>
    refine Or.inl (moved here ?_ now)
    unfold helloPhase
    split <;> rfl
  | @consume _ _ ok here =>
    refine Or.inl (moved here ?_ now)
    cases ok <;> rfl
  | @target _ _ _ _ _ found here =>
    refine Or.inl (moved here ?_ now)
    cases found <;> rfl
  | accept here | noHello here | reject here | rejectBroken here | clientId here
  | generate here | publish here | ack here | ackBroken here | rollback here | attach here
  | probe here | fanout here | deliver here | undelivered here | fanned here | hangup here
  | detach here | removeIf here | abort here =>
    exact Or.inl (moved here rfl now)
  | _ => exact Or.inl now

theorem session_of_removing (now : removing (w.phase k) = true) : ∃ s, w.session k = some s ∧
    w.phase k = .live s .removeIf := by
  cases phase : w.phase k with
  | live s stage =>
    rw [phase] at now
    cases stage with
    | removeIf => exact ⟨s, session_of_phase phase, rfl⟩
    | _ => cases now
  | _ =>
    rw [phase] at now
    cases now

/-- A session that takes its entry out of the registry leaves nothing in the cache. -/
theorem withdrawn_uncached (run : BrokerRun env acts w) (known : Cached env acts w)
    (step : Step env w a w') (timely : Timely w a) {e : ServiceEntry}
    (found : w.broker.registry.get service = some e) (withdrawn : withdraws a = some e.tx) :
    w.broker.capabilities service = none := by
  obtain ⟨s, session, same, rfl⟩ := (named ⟨_, run⟩).entries service e found
  cases step with
  | rollback here =>
    simp only [withdraws, Option.some.injEq] at withdrawn
    subst withdrawn
    apply timely s session
    rw [← same]
    exact found
  | removeIf here =>
    simp only [withdraws, Option.some.injEq] at withdrawn
    subst withdrawn
    apply known.leaving _ s session
    · rw [here]
      rfl
    · rw [← same]
      exact found
  | _ => simp [withdraws] at withdrawn

theorem stillCurrent_entry {b : Broker} (current : b.stillCurrent service generation = true) :
    ∃ e, b.registry.get service = some e ∧ e.generation = generation := by
  unfold Broker.stillCurrent at current
  split at current
  · rename_i e found
    exact ⟨e, found, beq_iff_eq.mp current⟩
  · cases current

theorem cached_current (run : BrokerRun env acts w) (few : taken generateTakes acts ≤ 2 ^ 64)
    (known : Cached env acts w) (step : Step env w a w') (timely : Timely w a)
    (now : w'.broker.capabilities service = some caps) :
    ∃ e, w'.broker.registry.get service = some e ∧ (registering (w'.phase e.tx) = true ∨
      Reported env (acts ++ [a]) w' service e.generation caps) := by
  rcases step_capabilities step now with ⟨old, unprobed⟩ | ⟨c, generation, rfl, task, here⟩
  · obtain ⟨e, found, state⟩ := known.current service caps old
    have stays : withdraws a ≠ some e.tx := by
      intro withdrawn
      have gone := withdrawn_uncached run known step timely found withdrawn
      rw [old] at gone
      cases gone
    by_cases published : ∃ k' e', a = .publish k' e' ∧ e'.service = service
    · obtain ⟨k', e', rfl, rfl⟩ := published
      cases step with
      | @publish _ s here =>
        refine ⟨s.entry k', Function.update_self _ _ _, Or.inl ?_⟩
        change registering ((World.setPhase _ k' _).phase k') = true
        rw [setPhase_here]
        rfl
    · have kept : w'.broker.registry.get service = some e := by
        apply entry_keeps run few step found ?_ stays
        intro k' e' same named
        exact published ⟨k', e', same, named⟩
      refine ⟨e, kept, ?_⟩
      rcases state with fresh | reported
      · rcases registering_step step fresh with still | ⟨c, rfl⟩ | rfl
        · exact Or.inl still
        · obtain ⟨s, session, _, named⟩ := (named ⟨_, run⟩).entries service e found
          exact absurd named (unprobed _ c s rfl session)
        · exact absurd rfl stays
      · exact Or.inr (reported_snoc step reported)
  · obtain ⟨e, found, rfl⟩ := stillCurrent_entry (timely generation task).1
    have begun : w.callPhase c ≠ .unused := by simp [here]
    obtain ⟨k, s, session, named, same, probed⟩ := probe_call_spawned run begun task
    obtain ⟨bytes, parsed, answered⟩ := caching_answered run (c := c) (by rw [here]; rfl)
    have reported : Reported env acts w service e.generation caps :=
      ⟨k, s, c, bytes, session, named, same, probed, parsed, answered⟩
    refine ⟨e, ?_, Or.inr (reported_snoc step reported)⟩
    cases step with
    | cache => exact found

theorem cached_leaving (known : Cached env acts w)
    (step : Step env w a w') (timely : Timely w a) (session : w'.session k = some s)
    (now : removing (w'.phase k) = true)
    (found : w'.broker.registry.get s.service = some (s.entry k)) :
    w'.broker.capabilities s.service = none := by
  have before : w.broker.registry.get s.service = some (s.entry k) := by
    rcases entries_step step found with old | ⟨s', here, label, _⟩
    · exact old
    · change w.phase k = _ at here
      subst label
      rcases removing_step step now with earlier | same | same
      · rw [here] at earlier
        cases earlier
      · cases same
      · cases same
  rcases removing_step step now with earlier | rfl | rfl
  · obtain ⟨s', owner, _⟩ := session_of_removing earlier
    have same := (session_keeps step owner).symm.trans session
    cases same
    have empty := known.leaving k s owner earlier before
    cases stored : w'.broker.capabilities s.service with
    | none => rfl
    | some caps =>
      rcases step_capabilities step stored with ⟨old, _⟩ | ⟨c, generation, rfl, task, _⟩
      · rw [empty] at old
        cases old
      · obtain ⟨current, clear⟩ := timely generation task
        obtain ⟨e, entry, generation⟩ := stillCurrent_entry current
        rw [before] at entry
        cases entry
        have idle := clear k s owner rfl generation
        rw [earlier] at idle
        cases idle
  · cases step with
    | forget here =>
      have same := session_here session
      subst same
      exact Function.update_self _ _ _
  · cases step with
    | check here verdict =>
      have same := session_here session
      subst same
      simp [Broker.shouldRemove, before, Session.entry] at verdict

theorem cached (run : Run (Guarded (Step env) Timely) World.init acts w)
    (few : taken generateTakes acts ≤ 2 ^ 64) : Cached env acts w := by
  induction run with
  | nil =>
    constructor
    · intro service caps now
      cases now
    · intro k s session
      cases session
  | @snoc acts w w' a before last ih =>
    obtain ⟨step, timely⟩ := last
    rw [taken_append] at few
    have short : taken generateTakes acts ≤ 2 ^ 64 := by omega
    have known := ih short
    constructor
    · intro service caps now
      exact cached_current (guarded_run before) short known step timely now
    · intro k s session now found
      exact cached_leaving known step timely session now found

/-- `get_capabilities` gives what the probe of the registered session reported, and what a
    teardown forgets is what its own session's probe reported. -/
structure Coherent (env : Env) (acts : List Act) (w : World) : Prop where
  current : ∀ service caps, Settled w service → w.broker.getCapabilities service = some caps →
    ∃ e, w.broker.registry.get service = some e ∧ Reported env acts w service e.generation caps
  own : ∀ i k, At acts i (.forget k) → ∃ v v' s, BrokerRun env (acts.take i) v ∧
    Step env v (.forget k) v' ∧ Run (Step env) v' (acts.drop (i + 1)) w ∧
    v.session k = some s ∧ ∀ caps, v.broker.capabilities s.service = some caps →
      Reported env (acts.take i) v s.service s.generation caps

theorem capabilities_coherent (run : Run (Guarded (Step env) Timely) World.init acts w)
    (few : taken generateTakes acts ≤ 2 ^ 64) : Coherent env acts w := by
  constructor
  · intro service caps settled now
    obtain ⟨e, found, state⟩ := (cached run few).current service caps now
    refine ⟨e, found, ?_⟩
    obtain ⟨s, session, _, named⟩ := (named ⟨_, guarded_run run⟩).entries service e found
    have finished := settled e.tx s session named
    rcases state with fresh | reported
    · rw [finished] at fresh
      cases fresh
    · exact reported
  · intro i k here
    obtain ⟨v, v', before, ⟨step, timely⟩, after⟩ := run_at run here
    have part := @taken_take_le _ generateTakes acts i
    have short : taken generateTakes (acts.take i) ≤ 2 ^ 64 := by omega
    have session : ∃ s, v.session k = some s ∧ registering (v.phase k) = false := by
      cases step with
      | forget here => exact ⟨_, session_of_phase here, by rw [here]; rfl⟩
    obtain ⟨s, session, idle⟩ := session
    refine ⟨v, v', s, guarded_run before, step, guarded_run after, session, ?_⟩
    intro caps stored
    obtain ⟨e, found, state⟩ := (cached before short).current s.service caps stored
    have remove := timely s session
    have same : e.generation = s.generation := by
      simpa [Broker.shouldRemove, found] using remove
    have entry := entry_of_generation (guarded_run before) short session found same
    rw [entry] at state
    rcases state with fresh | reported
    · change registering (v.phase k) = true at fresh
      rw [idle] at fresh
      cases fresh
    · exact reported

def capabilityText : String := "\x7b\"version\":\"0.1.0\",\"methods\":[]\x7d"

def capabilityBytes : Bytes := capabilityText.toUTF8.toList

def videoCapabilities : ServiceCapabilities := ⟨"0.1.0", ∅⟩

def probedEnv : Env :=
  { standardEnv with
    capabilityResponse := fun bytes => if bytes = capabilityBytes then some ("0.1.0", []) else none }

def probedSession : Session :=
  ⟨⟨ProtocolVersion.current, "video", "0.1.0", 7, tokenText 0 1 0, [openMethod "capabilities"], [],
    none⟩, 1, 1⟩

def probe : Call := probeCall BrokerConfig.default probedSession

def probedWorld : World :=
  World.connected probedEnv (World.issued probedEnv World.init "video" 0) 0 probedSession.hello 0

def probedActs : List Act :=
  issueActs probedEnv 0 "video" 0 0 ++ connectActs probedEnv 0 probedSession 0 ++
    ([Act.localLookup 0 none, .permit 0 (probedSession.entry 0), .route 0 0, .number 0 0 1,
      .register 0 0 1] ++ [Act.send 0 0 (probe.invoke 1)] ++
    [Act.response 0 ⟨1, .ok capabilityBytes⟩ (some 0), .complete 0 ⟨1, .ok capabilityBytes⟩] ++
    [Act.probeCheck 0 true])

def checkedWorld : World :=
  (World.answered (World.queued probedWorld 0 probe 0) 0 0
    ⟨1, .ok capabilityBytes⟩).setCallPhase 0 (.caching videoCapabilities)

theorem capabilities_parsed :
    parsedCapabilities probedEnv capabilityBytes = some videoCapabilities := by
  simp [parsedCapabilities, probedEnv, videoCapabilities]

theorem probed_run : BrokerRun probedEnv probedActs checkedWorld := by
  have connected : Connected probedWorld 0 probedSession :=
    connected_after probedEnv _ 0 probedSession.hello 0
  have start : BrokerRun probedEnv (issueActs probedEnv 0 "video" 0 0 ++
      connectActs probedEnv 0 probedSession 0) probedWorld := by
    refine run_append (token_issued probedEnv World.init rfl "video" 0) ?_
    refine connects rfl rfl rfl rfl ?_
    change Fits toVecNamed (.helloAck ⟨1, Duration.fromSecs 15⟩)
    decide +kernel
  have calling : Run (Step probedEnv) probedWorld [.localLookup 0 none,
      .permit 0 (probedSession.entry 0), .route 0 0, .number 0 0 1, .register 0 0 1]
      (World.listing probedWorld 0 probe probedSession 0) := by
    have run := @begun_registers probedEnv probedWorld 0 0 probedSession probe connected rfl rfl rfl
    have begun : probedWorld.begin 0 probe .start = probedWorld := begin_same rfl rfl
    rwa [begun] at run
  have sent := calling.snoc (send_queues connected.alive)
  have answered := run_append sent (@response_completes probedEnv (World.queued probedWorld 0 probe 0)
    0 0 probedSession ⟨1, .ok capabilityBytes⟩ rfl rfl rfl)
  have checked := answered.snoc (@Step.probeCheck probedEnv _ 0 "video" 1 capabilityBytes
    videoCapabilities true rfl rfl capabilities_parsed rfl)
  exact run_append start checked

/-- The session ends before the probe stores what it was answered. -/
def lateActs : List Act :=
  probedActs ++ endActs 0 ++ [Act.abort 0] ++ [Act.cache 0 "video" videoCapabilities]

theorem late_run : ∃ w, BrokerRun probedEnv lateActs w ∧
    w.broker.capabilities "video" = some videoCapabilities ∧
    w.broker.registry.get "video" = none ∧ registering (w.phase 0) = false := by
  have connected : Connected checkedWorld 0 probedSession := ⟨rfl, rfl, rfl, by decide +kernel⟩
  have run := run_append probed_run (session_ends connected)
  have run := run.snoc (Step.abort (setPhase_here _ _ _))
  have run := run.snoc (@Step.cache probedEnv _ 0 "video" 1 videoCapabilities rfl rfl)
  refine ⟨_, run, ?_, rfl, rfl⟩
  simp [World.setCallPhase, World.withBroker, Broker.storeCapabilities]

theorem capabilities_outlive_session :
    ¬ ∀ acts w, BrokerRun probedEnv acts w → Coherent probedEnv acts w := by
  intro claim
  obtain ⟨w, run, stored, unlisted, finished⟩ := late_run
  have settled : Settled w "video" := by
    intro k s session _
    have generated := session_history run session
    simp [lateActs, probedActs, issueActs, connectActs, endActs] at generated
    rwa [generated.1]
  obtain ⟨e, found, _⟩ := (claim _ w run).current "video" videoCapabilities settled stored
  rw [unlisted] at found
  cases found

def cachedActs : List Act := probedActs ++ [Act.cache 0 "video" videoCapabilities]

theorem cached_run : ∃ w, Run (Guarded (Step probedEnv) Timely) World.init cachedActs w := by
  have start := run_guarded (g := Timely) probed_run
    (by simp [probedActs, issueActs, connectActs, Timely])
  refine ⟨_, start.snoc ⟨@Step.cache probedEnv _ 0 "video" 1 videoCapabilities rfl rfl, ?_⟩⟩
  intro generation task
  cases task
  refine ⟨rfl, ?_⟩
  intro k s session _ _
  have generated := session_history probed_run session
  simp [probedActs, issueActs, connectActs] at generated
  rw [generated.1]
  rfl

theorem cached_run_coherent : ∃ w, Coherent probedEnv cachedActs w := by
  obtain ⟨w, run⟩ := cached_run
  exact ⟨w, capabilities_coherent run (by decide)⟩

end TokimoCapabilities

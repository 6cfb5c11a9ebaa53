import TokimoBus.Rounds

/-!
Who receives an event. Subscriptions are kept by service name: a session adds to and
takes from the prefixes of its service, and they stay when it ends. `fanout` collects
the services with a matching prefix, and sends to the session of each that is registered
when it looks the name up.
-/
namespace TokimoSubscriptions
open TokimoFrame TokimoOutbound TokimoBroker TokimoSession TokimoIdentity TokimoProgress
open TokimoRounds TokimoWire LabelledRuns
variable {env : Env} {w w' : World} {a : Act} {acts rest : List Act} {k j : ConnId}
  {svc p : String}

def SessionOf (w : World) (k : ConnId) (svc : String) : Prop :=
  ∃ s, w.session k = some s ∧ s.service = svc

def prefixes (b : Broker) (svc : String) : Finset String := (b.subscriptions.lookup svc).getD ∅

/-- Some session of the service has sent a Subscribe for the prefix, and no session of the
    service has sent the Unsubscribe since. -/
def Subscribed (w : World) (acts : List Act) (svc p : String) : Prop :=
  ∃ front k rest, acts = front ++ .subscribe k p :: rest ∧ SessionOf w k svc ∧
    ∀ k', .unsubscribe k' p ∈ rest → ¬ SessionOf w k' svc

theorem mem_prefixes_subscribe (b : Broker) (service q : String) :
    p ∈ prefixes (b.subscribe service q) svc ↔ svc = service ∧ p = q ∨ p ∈ prefixes b svc := by
  unfold prefixes Broker.subscribe
  by_cases same : svc = service
  · subst same
    simp
  · simp [Finmap.lookup_insert_of_ne _ same, same]

theorem mem_prefixes_unsubscribe (b : Broker) (service q : String) :
    p ∈ prefixes (b.unsubscribe service q) svc ↔
      ¬ (svc = service ∧ p = q) ∧ p ∈ prefixes b svc := by
  unfold prefixes Broker.unsubscribe
  by_cases same : svc = service
  · subst same
    cases found : b.subscriptions.lookup svc with
    | none => simp [found]
    | some set => simp
  · cases found : b.subscriptions.lookup service with
    | none => simp [same]
    | some set => simp [Finmap.lookup_insert_of_ne _ same, same]

theorem subscribe_session (h : Step env w (.subscribe k p) w') : ∃ s, w.session k = some s ∧
    w'.broker = w.broker.subscribe s.service p := by
  cases h with
  | subscribe here => exact ⟨_, session_of_phase here, rfl⟩

theorem unsubscribe_session (h : Step env w (.unsubscribe k p) w') : ∃ s, w.session k = some s ∧
    w'.broker = w.broker.unsubscribe s.service p := by
  cases h with
  | unsubscribe here => exact ⟨_, session_of_phase here, rfl⟩

theorem subscriptions_kept (h : Step env w a w') (plain : ∀ k p, a ≠ .subscribe k p)
    (other : ∀ k p, a ≠ .unsubscribe k p) :
    w'.broker.subscriptions = w.broker.subscriptions := by
  cases h with
  | subscribe => exact absurd rfl (plain _ _)
  | unsubscribe => exact absurd rfl (other _ _)
  | _ => rfl

theorem changer_session (run : BrokerRun env acts w)
    (mem : .subscribe k p ∈ acts ∨ .unsubscribe k p ∈ acts) : ∃ s, w.session k = some s := by
  have found : ∀ {a : Act}, a ∈ acts → (∀ v v', Step env v a v' → ∃ s, v.session k = some s) →
      ∃ s, w.session k = some s := by
    intro a mem owner
    obtain ⟨i, here⟩ := List.mem_iff_getElem?.mp mem
    obtain ⟨v, v', before, one, after⟩ := run_at run here
    obtain ⟨s, session⟩ := owner v v' one
    refine ⟨s, stable_run (p := fun v => v.session k = some s) ?_ ⟨_, before⟩
      (run_cons one after) session⟩
    intro x b y _ step now
    exact session_keeps step now
  rcases mem with sub | unsub
  · refine found sub fun v v' one => ?_
    obtain ⟨s, session, _⟩ := subscribe_session one
    exact ⟨s, session⟩
  · refine found unsub fun v v' one => ?_
    obtain ⟨s, session, _⟩ := unsubscribe_session one
    exact ⟨s, session⟩

theorem session_of_later (before : BrokerReachable env w) (run : Run (Step env) w rest w')
    (known : ∃ s, w.session k = some s) : SessionOf w' k svc ↔ SessionOf w k svc := by
  obtain ⟨s, session⟩ := known
  have later := session_keeps_run before run session
  unfold SessionOf
  rw [session, later]

theorem subscribed_later (before : BrokerRun env acts w) (run : Run (Step env) w rest w') :
    Subscribed w' acts svc p ↔ Subscribed w acts svc p := by
  unfold Subscribed
  refine exists_congr fun front => exists_congr fun k => exists_congr fun back => ?_
  refine and_congr_right fun parts => ?_
  have first : .subscribe k p ∈ acts := by
    rw [parts]
    simp
  refine and_congr (session_of_later ⟨_, before⟩ run (changer_session before (Or.inl first))) ?_
  refine forall_congr' fun k' => forall_congr' fun mem => not_congr ?_
  have second : .unsubscribe k' p ∈ acts := by
    rw [parts]
    simp [mem]
  exact session_of_later ⟨_, before⟩ run (changer_session before (Or.inr second))

theorem subscribed_snoc (other : ∀ k, a = .subscribe k p → ¬ SessionOf w k svc)
    (quiet : ∀ k, a = .unsubscribe k p → ¬ SessionOf w k svc) :
    Subscribed w (acts ++ [a]) svc p ↔ Subscribed w acts svc p := by
  constructor
  · rintro ⟨front, k, rest, parts, session, none⟩
    cases rest using List.reverseRecOn with
    | nil =>
      have last := (List.append_inj' parts rfl).2
      cases last
      exact absurd session (other k rfl)
    | append_singleton rest b =>
      rw [← List.cons_append, ← List.append_assoc] at parts
      obtain ⟨same, _⟩ := List.append_inj' parts rfl
      exact ⟨front, k, rest, same, session, fun k' mem => none k' (by simp [mem])⟩
  · rintro ⟨front, k, rest, rfl, session, none⟩
    refine ⟨front, k, rest ++ [a], by simp, session, fun k' mem => ?_⟩
    rcases List.mem_append.mp mem with old | new
    · exact none k' old
    · exact quiet k' (List.mem_singleton.mp new).symm

theorem unsubscribed_snoc (session : SessionOf w k svc) :
    ¬ Subscribed w (acts ++ [.unsubscribe k p]) svc p := by
  rintro ⟨front, j, rest, parts, _, none⟩
  cases rest using List.reverseRecOn with
  | nil =>
    have last := (List.append_inj' parts rfl).2
    cases last
  | append_singleton rest b =>
    rw [← List.cons_append, ← List.append_assoc] at parts
    obtain ⟨_, last⟩ := List.append_inj' parts rfl
    cases last
    exact none k (by simp) session

theorem session_service {s : Session} (session : w.session k = some s) :
    SessionOf w k svc ↔ svc = s.service := by
  unfold SessionOf
  rw [session]
  constructor
  · rintro ⟨s', same, named⟩
    cases same
    exact named.symm
  · intro named
    exact ⟨s, rfl, named.symm⟩

/-- The table holds the prefixes of a service that have been subscribed and not taken back. -/
theorem prefixes_subscribed (run : BrokerRun env acts w) :
    p ∈ prefixes w.broker svc ↔ Subscribed w acts svc p := by
  induction run with
  | nil =>
    constructor
    · intro mem
      simp [prefixes, World.init, Broker.new] at mem
    · rintro ⟨front, k, rest, parts, _⟩
      simp at parts
  | @snoc acts w w' a before step ih =>
    rw [← subscribed_later before (run_single step)] at ih
    by_cases subs : ∃ k q, a = .subscribe k q
    · obtain ⟨k, q, rfl⟩ := subs
      obtain ⟨s, session, table⟩ := subscribe_session step
      have later := @session_service _ k svc _ (session_keeps step session)
      rw [table, mem_prefixes_subscribe, ih]
      by_cases own : svc = s.service ∧ p = q
      · obtain ⟨named, rfl⟩ := own
        have here : Subscribed w' (acts ++ [.subscribe k p]) svc p :=
          ⟨acts, k, [], rfl, later.mpr named, by simp⟩
        exact iff_of_true (Or.inl ⟨named, rfl⟩) here
      · rw [subscribed_snoc ?_ (by simp)]
        · simp [own]
        · rintro k' same other
          cases same
          exact own ⟨later.mp other, rfl⟩
    · by_cases unsubs : ∃ k q, a = .unsubscribe k q
      · obtain ⟨k, q, rfl⟩ := unsubs
        obtain ⟨s, session, table⟩ := unsubscribe_session step
        have later := @session_service _ k svc _ (session_keeps step session)
        rw [table, mem_prefixes_unsubscribe, ih]
        by_cases own : svc = s.service ∧ p = q
        · obtain ⟨named, rfl⟩ := own
          have gone := @unsubscribed_snoc w' acts k svc p (later.mpr named)
          exact iff_of_false (fun held => held.1 ⟨named, rfl⟩) gone
        · rw [subscribed_snoc (by simp) ?_]
          · simp [own]
          · rintro k' same other
            cases same
            exact own ⟨later.mp other, rfl⟩
      · have table := subscriptions_kept step (fun k q same => subs ⟨k, q, same⟩)
          (fun k q same => unsubs ⟨k, q, same⟩)
        rw [subscribed_snoc (fun k same => absurd ⟨k, p, same⟩ subs)
          (fun k same => absurd ⟨k, p, same⟩ unsubs), ← ih]
        unfold prefixes
        rw [table]

theorem target_subscribed (run : BrokerRun env acts w) {l : Nat} {ev : Event}
    {targets : List String} (here : At acts l (.fanout k ev targets)) (mem : svc ∈ targets) :
    ¬ SessionOf w k svc ∧ ∃ p, startsWith ev.topic p = true ∧
      Subscribed w (acts.take l) svc p := by
  obtain ⟨v, v', before, one, after⟩ := run_at run here
  cases one with
  | @fanout _ s _ _ reading once all =>
    have owner := session_of_phase reading
    have later := session_keeps_run ⟨_, before⟩ (run_cons (Step.fanout reading once all) after) owner
    rw [← List.mem_toFinset, all, Broker.fanoutTargets, Finset.mem_filter] at mem
    obtain ⟨_, other, p, listed, starts⟩ := mem
    constructor
    · intro same
      exact other ((session_service later).mp same)
    · refine ⟨p, starts, ?_⟩
      rw [subscribed_later before (run_cons (Step.fanout reading once all) after)]
      exact (prefixes_subscribed before).mp listed

theorem target_session (run : BrokerRun env acts w) {h : Nat} {e : ServiceEntry}
    (here : At acts h (.target k svc (some e))) : SessionOf w e.tx svc := by
  obtain ⟨v, v', before, one, after⟩ := run_at run here
  have found : v.broker.registry.get svc = some e := by
    cases one with
    | target _ looked => exact looked.symm
  obtain ⟨s, owner, _, service⟩ := (named ⟨_, before⟩).entries svc e found
  exact ⟨s, session_keeps_run ⟨_, before⟩ (run_cons one after) owner, service⟩

/-- What lies behind the event that session `k` queues on the channel of session `j` at `i`: the
    last Publish frame that `k` has read, at `l`, and the last look-up of its fan-out, at `h`. -/
structure Follows (env : Env) (acts : List Act) (w : World) (k j : ConnId) (ev : Event)
    (i l h : Nat) (svc p : String) : Prop where
  published : ∃ ev₀ targets s, Since acts k l i ev₀ targets ∧ w.session k = some s ∧
    ev = { ev₀ with fromService := some s.service } ∧ svc ∈ targets ∧ svc ≠ s.service
  found : ∃ e v, At acts h (.target k svc (some e)) ∧ BrokerRun env (acts.take h) v ∧
    v.broker.registry.get svc = some e ∧ e.tx = j
  order : l < h ∧ h < i
  latest : ∀ a ∈ (acts.take i).drop (h + 1), spreads a ≠ some k
  owner : SessionOf w j svc
  accepted : startsWith ev.topic p = true
  subscribed : Subscribed w (acts.take l) svc p

theorem delivery_follows (run : BrokerRun env acts w) {i : Nat} {k j : ConnId} {ev : Event}
    (here : At acts i (.deliver k j ev)) : ∃ l h svc p, Follows env acts w k j ev i l h svc p := by
  obtain ⟨v, v', before, one, after⟩ := state_at run here
  obtain ⟨s, left, now⟩ := deliver_fanning one
  obtain ⟨l, ev₀, targets, last⟩ := round before now
  have since := round_since last
  rw [length_take_at here, since_take] at since
  have session := session_keeps_run ⟨_, before⟩ after (fanning_session now)
  obtain ⟨h, svc, e, looked, owner, latest⟩ := latest_lookup before now
  obtain ⟨earlier, found⟩ := take_index looked
  -- the look-up belongs to this fan-out, since the Publish frame is a step of it too
  have order : l < h := by
    by_contra not
    have apart : l ≠ h := by
      rintro rfl
      cases since.1.symm.trans found
    exact latest _ (index_mem_drop (by omega) last.here) rfl
  obtain ⟨u, _, start, look, _⟩ := state_at run found
  have mem := looks_collected last order looked
  obtain ⟨other, p, starts, subscribed⟩ := target_subscribed run since.1 mem
  have registered := target_session run found
  rw [owner] at registered
  refine ⟨l, h, svc, p, ⟨ev₀, targets, s, since, session, last.stamp, mem, ?_⟩,
    ⟨e, u, found, start, target_found look, owner⟩, ⟨order, earlier⟩, latest, registered, ?_,
    subscribed⟩
  · intro same
    exact other ((session_service session).mpr same)
  · rw [last.stamp]
    exact starts

/-- An event goes to the session that is registered under the name of a service some session
    of which had subscribed when the targets were collected. -/
theorem events_follow_subscriptions (run : BrokerRun env acts w) :
    (∀ i k j ev, At acts i (.deliver k j ev) →
      ∃ l h svc p, Follows env acts w k j ev i l h svc p) ∧
    ∀ svc p, p ∈ prefixes w.broker svc ↔ Subscribed w acts svc p := by
  constructor
  · intro i k j ev here
    exact delivery_follows run here
  · intro svc p
    exact prefixes_subscribed run

def libraryEvent : Event := ⟨"library.scanned", [], none⟩

def audioHello (token : String) : HelloRequest :=
  ⟨ProtocolVersion.current, "audio", "0.1.0", 9, token, [], [], none⟩

def endedWorld : World :=
  World.ending (videoWorld.withBroker (videoWorld.broker.subscribe "video" "library")) 0
    videoSession

theorem ended_run : BrokerRun standardEnv
    (videoActs ++ [.subscribe 0 "library"] ++ endActs 0) endedWorld := by
  have connected : Connected (videoWorld.withBroker (videoWorld.broker.subscribe "video" "library"))
      0 videoSession :=
    ⟨video_connected.reading, video_connected.listed, video_connected.attached,
      video_connected.alive⟩
  exact run_append (video_run.snoc (Step.subscribe video_connected.reading))
    (session_ends connected)

def freshWorld : World :=
  World.connected standardEnv (World.issued standardEnv endedWorld "video" 0) 1
    (videoHello (tokenText 0 1 1)) 1

def pairWorld : World :=
  World.connected standardEnv (World.issued standardEnv freshWorld "audio" 0) 2
    (audioHello (tokenText 0 1 2)) 2

def pairActs : List Act :=
  issueActs standardEnv 0 "video" 0 1 ++ connectActs standardEnv 1
    ⟨videoHello (tokenText 0 1 1), 2, 2⟩ 1 ++
  (issueActs standardEnv 0 "audio" 0 2 ++ connectActs standardEnv 2
    ⟨audioHello (tokenText 0 1 2), 3, 3⟩ 2)

theorem pair_run : Run (Step standardEnv) endedWorld pairActs pairWorld := by
  have first : Run (Step standardEnv) endedWorld (issueActs standardEnv 0 "video" 0 1 ++
      connectActs standardEnv 1 ⟨videoHello (tokenText 0 1 1), 2, 2⟩ 1) freshWorld := by
    refine run_append (token_issued standardEnv endedWorld (n := 0) rfl "video" 0)
      (connects rfl rfl rfl rfl ?_)
    change Fits toVecNamed (.helloAck ⟨2, Duration.fromSecs 15⟩)
    decide +kernel
  have second : Run (Step standardEnv) freshWorld (issueActs standardEnv 0 "audio" 0 2 ++
      connectActs standardEnv 2 ⟨audioHello (tokenText 0 1 2), 3, 3⟩ 2) pairWorld := by
    refine run_append (token_issued standardEnv freshWorld (n := 0) rfl "audio" 0)
      (connects rfl rfl rfl rfl ?_)
    change Fits toVecNamed (.helloAck ⟨3, Duration.fromSecs 15⟩)
    decide +kernel
  exact run_append first second

def revivedActs : List Act :=
  videoActs ++ [Act.subscribe 0 "library"] ++ endActs 0 ++ pairActs ++
    [Act.fanout 2 libraryEvent ["video"],
      .target 2 "video" (some (Session.entry ⟨videoHello (tokenText 0 1 1), 2, 2⟩ 1)),
      .deliver 2 1 { libraryEvent with fromService := some "audio" }]

theorem library_targets :
    ["video"].toFinset = pairWorld.broker.fanoutTargets "audio" "library.scanned" := by
  decide +kernel

theorem second_video_open : (pairWorld.out 1).IsOpen := by
  decide +kernel

theorem revived_run : ∃ w, BrokerRun standardEnv revivedActs w := by
  have run := run_append ended_run pair_run
  have run := run.snoc (@Step.fanout standardEnv _ 2 _ libraryEvent ["video"] rfl (by decide)
    library_targets)
  have run := run.snoc (@Step.target standardEnv _ 2 _ _ "video" []
    (some (Session.entry ⟨videoHello (tokenText 0 1 1), 2, 2⟩ 1)) (setPhase_here _ _ _) rfl)
  have run := run.snoc (@Step.deliver standardEnv _ 2 1 _ _ [] (setPhase_here _ _ _)
    second_video_open)
  simp only [List.append_assoc] at run
  simp only [revivedActs, List.append_assoc]
  exact ⟨_, run⟩

/-- A session that has never sent a Subscribe receives what its predecessor asked for. -/
theorem successor_inherits : ¬ ∀ acts w i k j ev, BrokerRun standardEnv acts w →
    At acts i (.deliver k j ev) → ∃ m p, m < i ∧ At acts m (.subscribe j p) ∧
      startsWith ev.topic p = true := by
  intro claim
  obtain ⟨w, run⟩ := revived_run
  obtain ⟨m, p, _, own, _⟩ := claim revivedActs w 41 2 1 _ run rfl
  have mem : .subscribe 1 p ∈ revivedActs := List.mem_of_getElem? own
  simp [revivedActs, videoActs, endActs, pairActs, issueActs, connectActs] at mem

theorem revived_followed : ∃ w, BrokerRun standardEnv revivedActs w ∧ ∃ l h svc p,
    Follows standardEnv revivedActs w 2 1 { libraryEvent with fromService := some "audio" } 41 l h
      svc p := by
  obtain ⟨w, run⟩ := revived_run
  exact ⟨w, run, (events_follow_subscriptions run).1 41 2 1 _ rfl⟩

end TokimoSubscriptions

import TokimoBus.Fanouts

/-!
Topics are dot-separated paths, and a subscription asks for a topic and those below it.
`fanout` takes any topic that begins with the text of the prefix. The two agree exactly as long
as no service is found by a prefix alone.
-/
namespace TokimoTopics
open TokimoFrame TokimoBroker TokimoSession TokimoIdentity TokimoSubscriptions TokimoFanouts
open TokimoRounds TokimoProgress TokimoWire LabelledRuns Pipes
variable {env : Env} {w : World} {acts : List Act} {k : ConnId} {s : Session} {ev : Event}
  {targets : List String} {svc topic p : String} {l m : Nat}

/-- The topic is the prefix or lies below it. -/
def Under (topic p : String) : Prop := topic = p ∨ startsWith topic (p ++ ".") = true

instance (topic p : String) : Decidable (Under topic p) := inferInstanceAs (Decidable (_ ∨ _))

theorem startsWith_iff : startsWith topic p = true ↔ p.toList <+: topic.toList :=
  List.isPrefixOf_iff_prefix

theorem under_starts (under : Under topic p) : startsWith topic p = true := by
  rw [startsWith_iff]
  rcases under with rfl | below
  · exact List.prefix_refl _
  · rw [startsWith_iff, String.toList_append] at below
    exact List.IsPrefix.trans (List.prefix_append _ _) below

def Subscribes (b : Broker) (svc topic : String) : Prop :=
  ∃ p ∈ prefixes b svc, Under topic p

theorem subscribes_matches {b : Broker} (subscribes : Subscribes b svc topic) :
    Matches b svc topic := by
  obtain ⟨p, listed, under⟩ := subscribes
  exact ⟨p, listed, under_starts under⟩

def copies (acts : List Act) (k : ConnId) (l m : Nat) : List (String × ServiceEntry) :=
  ((acts.take m).drop (l + 1)).filterMap (finds k)

def Registered (env : Env) (acts : List Act) (k : ConnId) (l m : Nat) (svc : String) : Prop :=
  ∀ h found v, l < h → h < m → At acts h (.target k svc found) →
    BrokerRun env (acts.take h) v → (v.broker.registry.get svc).isSome = true

/-- The fan-out of the Publish frame at `l`, which ends at `m`, sends one copy of the event to
    the registered session of each other service that has subscribed a prefix the topic lies
    under, and none to any other. -/
structure Hierarchical (env : Env) (acts : List Act) (k : ConnId) (s : Session) (l m : Nat)
    (ev : Event) : Prop where
  sends : ((acts.take m).drop (l + 1)).filterMap (tries k) =
    (copies acts k l m).map fun f => f.2.tx
  event : ∀ i j ev', l < i → i < m → At acts i (.deliver k j ev') →
    ev' = { ev with fromService := some s.service }
  once : ((copies acts k l m).map Prod.fst).Nodup
  exact : ∀ svc, svc ∈ (copies acts k l m).map Prod.fst ↔ svc ≠ s.service ∧
    (∃ v, BrokerRun env (acts.take l) v ∧ Subscribes v.broker svc ev.topic) ∧
    Registered env acts k l m svc

/-- No other service that is registered when it is looked up has subscribed only prefixes that
    the topic begins with and does not lie under. -/
def Segmented (env : Env) (acts : List Act) (k : ConnId) (s : Session) (l m : Nat) (ev : Event) :
    Prop :=
  ∀ v svc, BrokerRun env (acts.take l) v → svc ≠ s.service → Registered env acts k l m svc →
    Matches v.broker svc ev.topic → Subscribes v.broker svc ev.topic

theorem looks_once (once : (((acts.take m).drop (l + 1)).filterMap (looks k)).Nodup) {i j : Nat}
    {found found' : Option ServiceEntry} (here : At acts i (.target k svc found)) (low : l < i)
    (high : i < m) (there : At acts j (.target k svc found')) (low' : l < j) (high' : j < m) :
    i = j := by
  have apart := List.pairwise_filterMap.mp once
  have ordered : ∀ {i j : Nat} {found found' : Option ServiceEntry},
      At acts i (.target k svc found) → l < i → i < m → At acts j (.target k svc found') →
      l < j → j < m → ¬ i < j := by
    intro i j found found' here low high there low' high' order
    obtain ⟨first, here⟩ := List.getElem?_eq_some_iff.mp (index_between low high here)
    obtain ⟨second, there⟩ := List.getElem?_eq_some_iff.mp (index_between low' high' there)
    have differ := List.pairwise_iff_getElem.mp apart _ _ first second (by omega)
    rw [here, there] at differ
    exact differ svc (if_pos rfl) svc (if_pos rfl) rfl
  have left := ordered here low high there low' high'
  have right := ordered there low' high' here low high
  omega

theorem mem_copies : svc ∈ (copies acts k l m).map Prod.fst ↔
    ∃ h e, l < h ∧ h < m ∧ At acts h (.target k svc (some e)) := by
  constructor
  · intro mem
    obtain ⟨⟨svc', e⟩, listed, rfl⟩ := List.mem_map.mp mem
    obtain ⟨a, inside, found⟩ := List.mem_filterMap.mp listed
    obtain ⟨h, low, high, here⟩ := mem_between inside
    rw [(looks_of_finds found).2] at here
    exact ⟨h, e, low, high, here⟩
  · rintro ⟨h, e, low, high, here⟩
    refine List.mem_map.mpr ⟨(svc, e), List.mem_filterMap.mpr ⟨_, between_mem low high here, ?_⟩,
      rfl⟩
    simp [finds]

theorem target_looked {found : Option ServiceEntry} {v v' : World}
    (h : Step env v (.target k svc found) v') : found = v.broker.registry.get svc := by
  cases h with
  | target _ looked => exact looked

theorem deliver_event (run : BrokerRun env acts w) (session : w.session k = some s) {i : Nat}
    {j : ConnId} {ev' : Event} (since : Since acts k l i ev targets)
    (here : At acts i (.deliver k j ev')) : ev' = { ev with fromService := some s.service } := by
  obtain ⟨v, v', before, step, after⟩ := state_at run here
  obtain ⟨s', left, now⟩ := deliver_fanning step
  have same := (round_at before here now since).stamp
  have owner : w.session k = some s' := by
    apply session_keeps_run ⟨_, before⟩ after
    cases step with
    | deliver reading =>
      rw [reading] at now
      cases now
      exact session_of_phase reading
  rw [session] at owner
  cases owner
  exact same

/-- In a finished fan-out each service that is found was a target, and each target that is
    registered when it is looked up is found. -/
theorem copies_exact (run : BrokerRun env acts w) (session : w.session k = some s)
    (since : Since acts k l m ev targets) (last : At acts m (.fanned k)) {v : World}
    (before : BrokerRun env (acts.take l) v) : svc ∈ (copies acts k l m).map Prod.fst ↔
      svc ≠ s.service ∧ Matches v.broker svc ev.topic ∧ Registered env acts k l m svc := by
  obtain ⟨v₀, v', start, step, after⟩ := state_at run since.1
  cases trace_unique start before
  obtain ⟨s₀, mine, _, collected⟩ := fanout_collects step
  have later := session_keeps_run ⟨_, before⟩ after mine
  rw [session] at later
  cases later
  obtain ⟨_, _, whole⟩ := finished_round run since last
  have looked := whole.looked
  rw [List.append_nil] at looked
  rw [mem_copies, ← and_assoc, ← collected, ← looked]
  constructor
  · rintro ⟨h, e, low, high, here⟩
    constructor
    · exact List.mem_filterMap.mpr ⟨_, between_mem low high here, if_pos rfl⟩
    · intro h' found u low' high' there here'
      have once := whole.once
      rw [← looked] at once
      obtain rfl := looks_once once here low high there low' high'
      obtain ⟨u', look⟩ := step_at run here here'
      rw [← target_looked look]
      rfl
  · rintro ⟨target, registered⟩
    obtain ⟨a, inside, label⟩ := List.mem_filterMap.mp target
    obtain ⟨found, rfl⟩ := looks_target label
    obtain ⟨h, low, high, here⟩ := mem_between inside
    obtain ⟨u, u', there, look, _⟩ := state_at run here
    obtain ⟨e, entry⟩ := Option.isSome_iff_exists.mp (registered h found u low high here there)
    rw [target_looked look, entry] at here
    exact ⟨h, e, low, high, here⟩

/-- An event goes to the services that ask for its topic or a parent of it, exactly when no
    other service asks for a text that the topic merely begins with. -/
theorem hierarchical_iff (run : BrokerRun env acts w) (session : w.session k = some s)
    (since : Since acts k l m ev targets) (last : At acts m (.fanned k)) :
    Hierarchical env acts k s l m ev ↔ Segmented env acts k s l m ev := by
  constructor
  · intro hierarchical v svc before other registered matching
    have found := (copies_exact run session since last before).mpr ⟨other, matching, registered⟩
    obtain ⟨_, ⟨v', before', subscribes⟩, _⟩ := (hierarchical.exact svc).mp found
    rwa [trace_unique before before']
  · intro segmented
    obtain ⟨_, _, whole⟩ := finished_round run since last
    obtain ⟨v, _, before, _⟩ := state_at run since.1
    constructor
    · have sent := whole.sent
      rw [Option.toList_none, List.append_nil] at sent
      exact sent.symm
    · intro i j ev' low high here
      exact deliver_event run session (since_earlier since low (Nat.le_of_lt high)) here
    · have looked := whole.once
      rw [← whole.looked, List.append_nil] at looked
      exact looked.sublist (finds_sublist k _)
    · intro svc
      rw [copies_exact run session since last before]
      constructor
      · rintro ⟨other, matching, registered⟩
        exact ⟨other, ⟨v, before, segmented v svc before other registered matching⟩, registered⟩
      · rintro ⟨other, ⟨v', before', subscribes⟩, registered⟩
        rw [trace_unique before before']
        exact ⟨other, subscribes_matches subscribes, registered⟩

theorem scanned_segmented : ∃ w, BrokerRun standardEnv scannedActs w ∧
    (Hierarchical standardEnv scannedActs 2 audioSession 39 42 libraryEvent ↔
      Segmented standardEnv scannedActs 2 audioSession 39 42 libraryEvent) := by
  obtain ⟨w, run, publisher, _⟩ := scanned_run
  have since : Since scannedActs 2 39 42 libraryEvent ["video"] := ⟨rfl, by omega, by decide⟩
  exact ⟨w, run, hierarchical_iff run publisher since rfl⟩

def siblingEvent : Event := ⟨"library2.scanned", [], none⟩

def siblingActs : List Act :=
  videoActs ++ [Act.subscribe 0 "library"] ++ endActs 0 ++ pairActs ++
    [Act.fanout 2 siblingEvent ["video"], .target 2 "video" (some (freshVideo.entry 1)),
      .deliver 2 1 { siblingEvent with fromService := some "audio" }, .fanned 2]

theorem sibling_targets :
    ["video"].toFinset = pairWorld.broker.fanoutTargets "audio" "library2.scanned" := by
  decide +kernel

theorem sibling_run : ∃ w, BrokerRun standardEnv siblingActs w ∧
    w.session 2 = some audioSession := by
  have run := run_append ended_run pair_run
  have run := run.snoc (@Step.fanout standardEnv _ 2 _ siblingEvent ["video"] rfl (by decide)
    sibling_targets)
  have run := run.snoc (@Step.target standardEnv _ 2 _ _ "video" [] (some (freshVideo.entry 1))
    (setPhase_here _ _ _) rfl)
  have run := run.snoc (@Step.deliver standardEnv _ 2 1 _ _ [] (setPhase_here _ _ _)
    second_video_open)
  have run := run.snoc (@Step.fanned standardEnv _ 2 _ { siblingEvent with
    fromService := some "audio" } (setPhase_here _ _ _))
  simp only [List.append_assoc] at run
  simp only [siblingActs, List.append_assoc]
  exact ⟨_, run, rfl⟩

theorem sibling_reached : BrokerRun standardEnv (siblingActs.take 39) pairWorld := by
  have run := run_append ended_run pair_run
  exact run

theorem video_asks : prefixes pairWorld.broker "video" = {"library"} := by
  decide +kernel

/-- An app that asks for "library" also gets what is published under "library2". -/
theorem sibling_sent : ¬ ∀ acts w k s l m ev targets, BrokerRun standardEnv acts w →
    w.session k = some s → Since acts k l m ev targets → At acts m (.fanned k) →
    Hierarchical standardEnv acts k s l m ev := by
  intro claim
  obtain ⟨w, run, publisher⟩ := sibling_run
  have since : Since siblingActs 2 39 42 siblingEvent ["video"] := ⟨rfl, by omega, by decide⟩
  have hierarchical := claim siblingActs w 2 _ 39 42 _ _ run publisher since rfl
  have found : "video" ∈ (copies siblingActs 2 39 42).map Prod.fst :=
    mem_copies.mpr ⟨40, freshVideo.entry 1, by omega, by omega, rfl⟩
  obtain ⟨_, ⟨v, before, p, listed, under⟩, _⟩ := (hierarchical.exact "video").mp found
  rw [trace_unique before sibling_reached, video_asks, Finset.mem_singleton] at listed
  subst listed
  exact absurd under (by decide)

end TokimoTopics

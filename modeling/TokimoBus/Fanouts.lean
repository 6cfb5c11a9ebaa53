import TokimoBus.Subscriptions
import TokimoBus.SystemStreams

/-!
One fan-out after the other. A session reads its Publish frames one at a time, and for each
it looks up every service it has collected, once, and sends to the session it finds there. So
what reaches another session are events of the publisher in the order it published them.
-/
namespace TokimoFanouts
open TokimoFrame TokimoOutbound TokimoBroker TokimoSession TokimoIdentity TokimoSubscriptions
open TokimoRounds TokimoProgress TokimoChannel TokimoWriter TokimoWire LabelledRuns Pipes
variable {env : Env} {w w' : World} {a : Act} {acts : List Act} {k j : ConnId} {s : Session}
  {ev : Event} {left : List String} {dest : Option ConnId} {l : Nat}

def delivers (k j : ConnId) : Act → Option Event
  | .deliver k' j' ev => if k' = k ∧ j' = j then some ev else none
  | _ => none

theorem finds_sublist (k : ConnId) (acts : List Act) :
    ((acts.filterMap (finds k)).map Prod.fst).Sublist (acts.filterMap (looks k)) := by
  induction acts with
  | nil => exact List.Sublist.refl _
  | cons a acts ih =>
    cases found : finds k a with
    | none =>
      rw [List.filterMap_cons_none found]
      cases looked : looks k a with
      | none => rwa [List.filterMap_cons_none looked]
      | some svc =>
        rw [List.filterMap_cons_some looked]
        exact ih.cons svc
    | some f =>
      rw [List.filterMap_cons_some found, List.map_cons,
        List.filterMap_cons_some (looks_of_finds found).1]
      exact ih.cons_cons f.1

theorem found_distinct (run : BrokerRun env acts w) {ev₀ : Event} {targets : List String}
    (round : Round acts k s ev left dest l ev₀ targets) :
    (((acts.drop (l + 1)).filterMap (finds k)).map fun f => f.2.tx).Nodup := by
  have once : ((acts.drop (l + 1)).filterMap (looks k)).Nodup := by
    have whole := round.once
    rw [← round.looked] at whole
    exact whole.of_append_left
  have names := once.sublist (finds_sublist k (acts.drop (l + 1)))
  apply List.Nodup.map_on ?_ names.of_map
  intro f mem g mem' same
  apply List.inj_on_of_nodup_map names mem mem'
  have owner : ∀ f ∈ (acts.drop (l + 1)).filterMap (finds k), SessionOf w f.2.tx f.1 := by
    intro f mem
    obtain ⟨a, inside, found⟩ := List.mem_filterMap.mp mem
    obtain ⟨h, there⟩ := List.mem_iff_getElem?.mp (List.mem_of_mem_drop inside)
    rw [(looks_of_finds found).2] at there
    exact target_session run there
  obtain ⟨s₁, session, service⟩ := owner f mem
  obtain ⟨s₂, session', service'⟩ := owner g mem'
  rw [same, session'] at session
  cases session
  rw [← service, ← service']

/-- Some event is queued on the channel of session `j` for the Publish frame at `l`. -/
def Served (acts : List Act) (k j : ConnId) (l : Nat) : Prop :=
  ∃ i ev ev₀ targets, At acts i (.deliver k j ev) ∧ Since acts k l i ev₀ targets

theorem served_append (old : Served acts k j l) : Served (acts ++ [a]) k j l := by
  obtain ⟨i, ev, ev₀, targets, here, since⟩ := old
  have inside := (List.getElem?_eq_some_iff.mp here).1
  exact ⟨i, ev, ev₀, targets, at_append here _, (since_append (Nat.le_of_lt inside)).mpr since⟩

theorem served_snoc (now : Served (acts ++ [a]) k j l) : Served acts k j l ∨
    ∃ ev ev₀ targets, a = .deliver k j ev ∧ Since acts k l acts.length ev₀ targets := by
  obtain ⟨i, ev, ev₀, targets, here, since⟩ := now
  have bound := (List.getElem?_eq_some_iff.mp here).1
  rw [List.length_append, List.length_singleton] at bound
  by_cases last : i = acts.length
  · subst last
    refine Or.inr ⟨ev, ev₀, targets, ?_, (since_append (Nat.le_refl _)).mp since⟩
    simpa [At] using here
  · have inside : i < acts.length := by omega
    rw [At, List.getElem?_append_left inside] at here
    exact Or.inl ⟨i, ev, ev₀, targets, here, (since_append (by omega)).mp since⟩

def stamped (acts : List Act) (k : ConnId) (s : Session) (l : Nat) : Option Event :=
  (acts[l]?.bind (publishes k)).map fun ev => { ev with fromService := some s.service }

theorem served_inside (served : Served acts k j l) : l < acts.length := by
  obtain ⟨i, ev, ev₀, targets, _, here, _⟩ := served
  exact (List.getElem?_eq_some_iff.mp here).1

theorem stamped_append (inside : l < acts.length) :
    stamped (acts ++ [a]) k s l = stamped acts k s l := by
  unfold stamped
  rw [List.getElem?_append_left inside]

theorem round_unserved (run : BrokerRun env acts w) {ev₀ : Event} {targets : List String}
    (round : Round acts k s ev left (some j) l ev₀ targets) : ¬ Served acts k j l := by
  rintro ⟨i, ev', _, _, here, since⟩
  have distinct := found_distinct run round
  rw [round.sent, Option.toList_some] at distinct
  have sent : j ∈ (acts.drop (l + 1)).filterMap (tries k) :=
    List.mem_filterMap.mpr ⟨_, index_mem_drop since.2.1 here, by simp [tries]⟩
  have apart := (List.nodup_append.mp distinct).2.2
  exact apart j sent j (List.mem_singleton.mpr rfl) rfl

theorem served_order {l' i : Nat} {ev₀ : Event} {targets : List String}
    (served : Served acts k j l) (since : Since acts k l' i ev₀ targets)
    (last : i = acts.length) : l ≤ l' := by
  obtain ⟨n, ev, ev₁, targets', here, started⟩ := served
  by_contra later
  have inside := (List.getElem?_eq_some_iff.mp started.1).1
  have there : (acts.take i)[l]? = some (.fanout k ev₁ targets') := by
    rw [List.getElem?_take_of_lt (by omega)]
    exact started.1
  have none := since.2.2 _ (index_mem_drop (by omega) there)
  simp [publishes] at none

/-- The events that one session queues on the channel of another, by the positions of their
    Publish frames. -/
theorem served_positions (run : BrokerRun env acts w)
    (session : ∀ s', w.session k = some s' → s' = s) :
    ∃ ls : List Nat, ls.Pairwise (· < ·) ∧ (∀ l, l ∈ ls ↔ Served acts k j l) ∧
      acts.filterMap (delivers k j) = ls.filterMap (stamped acts k s) := by
  induction run with
  | nil =>
    refine ⟨[], List.Pairwise.nil, fun l => ?_, rfl⟩
    constructor
    · intro mem
      cases mem
    · rintro ⟨i, ev, ev₀, targets, here, _⟩
      cases here
  | @snoc acts w w' a before step ih =>
    obtain ⟨ls, sorted, served, events⟩ :=
      ih fun s' old => session s' (session_keeps step old)
    have old : ls.filterMap (stamped (acts ++ [a]) k s) = ls.filterMap (stamped acts k s) := by
      apply List.filterMap_congr
      intro l mem
      exact stamped_append (served_inside ((served l).mp mem))
    by_cases delivery : ∃ ev, a = .deliver k j ev
    · obtain ⟨ev, rfl⟩ := delivery
      obtain ⟨s', left, now⟩ := deliver_fanning step
      obtain ⟨l, ev₀, targets, last⟩ := round before now
      have owner : s' = s := by
        apply session s'
        cases step with
        | deliver here =>
          rw [here] at now
          cases now
          exact session_of_phase (setPhase_here _ _ _)
      subst owner
      have since := round_since last
      have apart := round_unserved before last
      have inside : l < acts.length := since.2.1
      refine ⟨ls ++ [l], ?_, fun m => ?_, ?_⟩
      · rw [List.pairwise_append]
        refine ⟨sorted, List.pairwise_singleton _ _, fun m mem n here => ?_⟩
        obtain rfl := List.mem_singleton.mp here
        have known := (served m).mp mem
        have most := served_order known since rfl
        have ne : m ≠ n := by
          rintro rfl
          exact apart known
        omega
      · rw [List.mem_append, List.mem_singleton, served]
        constructor
        · rintro (known | rfl)
          · exact served_append known
          · refine ⟨acts.length, ev, ev₀, targets, by simp [At], ?_⟩
            exact (since_append (Nat.le_refl _)).mpr since
        · intro now
          rcases served_snoc now with known | ⟨_, _, _, _, other⟩
          · exact Or.inl known
          · exact Or.inr (since_unique other since)
      · rw [filterMap_snoc, List.filterMap_append, old, events]
        have image : stamped (acts ++ [.deliver k j ev]) k s' l = some ev := by
          rw [stamped_append inside, stamped, last.here, last.stamp]
          simp [publishes]
        simp [delivers, image]
    · refine ⟨ls, sorted, fun m => ?_, ?_⟩
      · rw [served]
        constructor
        · exact served_append
        · intro now
          rcases served_snoc now with known | ⟨ev, _, _, label, _⟩
          · exact known
          · exact absurd ⟨ev, label⟩ delivery
      · have none : delivers k j a = none := by
          cases a with
          | deliver k' j' ev =>
            by_cases eq : k' = k ∧ j' = j
            · obtain ⟨rfl, rfl⟩ := eq
              exact absurd ⟨ev, rfl⟩ delivery
            · exact if_neg eq
          | _ => rfl
        rw [filterMap_snoc, none, old, events, Option.toList_none, List.append_nil]

theorem step_at (run : BrokerRun env acts w) {i : Nat} {v : World} (here : At acts i a)
    (before : BrokerRun env (acts.take i) v) : ∃ v', Step env v a v' := by
  obtain ⟨u, u', before', one, _⟩ := run_at run here
  rw [trace_unique before before']
  exact ⟨u', one⟩

def Matches (b : Broker) (svc topic : String) : Prop :=
  ∃ p ∈ prefixes b svc, startsWith topic p = true

/-- The Publish frame at `l` finds session `j`: its service has a matching prefix when the
    targets are collected, the session is registered when its service is looked up, and its
    channel is open when the event is sent. -/
def Receives (env : Env) (acts : List Act) (k j : ConnId) (svc : String) (l : Nat) : Prop :=
  ∃ ev targets h e i a, Since acts k l i ev targets ∧ l < h ∧ h < i ∧
    (∃ v, BrokerRun env (acts.take l) v ∧ Matches v.broker svc ev.topic) ∧
    (At acts h (.target k svc (some e)) ∧
      ∃ v, BrokerRun env (acts.take h) v ∧ v.broker.registry.get svc = some e ∧ e.tx = j) ∧
    At acts i a ∧ tries k a = some j ∧ ∃ v, BrokerRun env (acts.take i) v ∧ (v.out j).IsOpen

theorem fanout_collects {targets : List String} {w' : World}
    (h : Step env w (.fanout k ev targets) w') : ∃ s, w.session k = some s ∧ targets.Nodup ∧
      ∀ svc, svc ∈ targets ↔ svc ≠ s.service ∧ Matches w.broker svc ev.topic := by
  cases h with
  | @fanout _ s _ _ here once all =>
    refine ⟨s, session_of_phase here, once, fun svc => ?_⟩
    rw [← List.mem_toFinset, all, Broker.fanoutTargets, Finset.mem_filter]
    constructor
    · intro collected
      exact collected.2
    · rintro ⟨other, p, listed, starts⟩
      refine ⟨?_, other, p, listed, starts⟩
      rw [Finmap.mem_keys]
      by_contra absent
      rw [prefixes, Finmap.lookup_eq_none.mpr absent] at listed
      cases listed

theorem tries_cases (tried : tries k a = some j) :
    (∃ ev, a = .deliver k j ev) ∨ a = .undelivered k j := by
  cases a with
  | deliver k' j' ev =>
    by_cases eq : k' = k
    · subst eq
      simp only [tries, ↓reduceIte, Option.some.injEq] at tried
      subst tried
      exact Or.inl ⟨ev, rfl⟩
    · simp [tries, eq] at tried
  | undelivered k' j' =>
    by_cases eq : k' = k
    · subst eq
      simp only [tries, ↓reduceIte, Option.some.injEq] at tried
      subst tried
      exact Or.inr rfl
    · simp [tries, eq] at tried
  | _ => cases tried

theorem served_receives (run : BrokerRun env acts w) {s' : Session}
    (owner : w.session j = some s') : Served acts k j l ↔ Receives env acts k j s'.service l := by
  constructor
  · rintro ⟨i, ev, ev₀, targets, here, since⟩
    obtain ⟨v, v', before, step, _⟩ := state_at run here
    obtain ⟨s, left, now⟩ := deliver_fanning step
    have last := round_at before here now since
    have found : j ∈ (((acts.take i).drop (l + 1)).filterMap (finds k)).map (fun f => f.2.tx) := by
      rw [last.sent]
      simp
    obtain ⟨⟨svc, e⟩, listed, same⟩ := List.mem_map.mp found
    obtain ⟨b, inside, label⟩ := List.mem_filterMap.mp listed
    obtain ⟨h, later, earlier, there⟩ := mem_between inside
    rw [(looks_of_finds label).2] at there
    obtain ⟨s'', session, service⟩ := target_session run there
    simp only at same
    rw [same, owner] at session
    cases session
    subst service
    obtain ⟨v₀, _, start, first, _⟩ := state_at run since.1
    obtain ⟨v₁, _, look, second, _⟩ := state_at run there
    obtain ⟨_, _, _, collected⟩ := fanout_collects first
    have early : At (acts.take i) h (.target k s'.service (some e)) := by
      rwa [At, List.getElem?_take_of_lt earlier]
    have chosen := (collected s'.service).mp (looks_collected last (by omega) early)
    refine ⟨ev₀, targets, h, e, i, _, since, by omega, earlier, ⟨v₀, start, chosen.2⟩,
      ⟨there, v₁, look, target_found second, same⟩, here, by simp [tries], v, before, ?_⟩
    cases step with
    | deliver _ alive => exact alive
  · rintro ⟨ev, targets, h, e, i, a, since, _, _, _, _, here, tried, v, before, alive⟩
    obtain ⟨v', step⟩ := step_at run here before
    rcases tries_cases tried with ⟨ev', rfl⟩ | rfl
    · exact ⟨i, ev', ev, targets, here, since⟩
    · cases step with
      | undelivered _ closed => exact absurd alive closed

theorem target_fanning {svc : String} {found : Option ServiceEntry}
    (h : Step env w (.target k svc found) w') : ∃ s ev rest,
    fanning (w.phase k) = some (s, ev, svc :: rest, none) := by
  cases h with
  | @target _ s ev _ rest _ here => exact ⟨s, ev, rest, by rw [here]; rfl⟩

theorem fanned_fanning (h : Step env w (.fanned k) w') : ∃ s ev,
    fanning (w.phase k) = some (s, ev, [], none) := by
  cases h with
  | @fanned _ s ev here => exact ⟨s, ev, by rw [here]; rfl⟩

theorem finished_round (run : BrokerRun env acts w) {m : Nat} {targets : List String}
    (since : Since acts k l m ev targets) (last : At acts m (.fanned k)) :
    ∃ s ev₁, Round (acts.take m) k s ev₁ [] none l ev targets := by
  obtain ⟨v, v', before, step, _⟩ := state_at run last
  obtain ⟨s, ev₁, now⟩ := fanned_fanning step
  exact ⟨s, ev₁, round_at before last now since⟩

theorem looks_target {svc : String} (looked : looks k a = some svc) :
    ∃ found, a = .target k svc found := by
  cases a with
  | target k' svc' found =>
    by_cases eq : k' = k
    · subst eq
      simp only [looks, ↓reduceIte, Option.some.injEq] at looked
      subst looked
      exact ⟨found, rfl⟩
    · simp [looks, eq] at looked
  | _ => cases looked

theorem since_earlier {h m : Nat} {targets : List String} (since : Since acts k l m ev targets)
    (later : l < h) (before : h ≤ m) : Since acts k l h ev targets := by
  refine ⟨since.1, later, fun b mem => since.2.2 b ?_⟩
  obtain ⟨n, low, high, here⟩ := mem_between mem
  exact between_mem low (by omega) here

theorem finished_sends (run : BrokerRun env acts w) {h m : Nat} {targets : List String}
    {svc : String} {e : ServiceEntry} (since : Since acts k l m ev targets)
    (last : At acts m (.fanned k)) (later : l < h) (before : h < m)
    (here : At acts h (.target k svc (some e))) :
    ∃ i a, h < i ∧ i < m ∧ At acts i a ∧ tries k a = some e.tx := by
  obtain ⟨s, ev₁, whole⟩ := finished_round run since last
  obtain ⟨u, u', earlier, look, _⟩ := state_at run here
  obtain ⟨s', ev₂, rest, looking⟩ := target_fanning look
  have part := round_at earlier here looking (since_earlier since later (Nat.le_of_lt before))
  have found : e.tx ∈ ((acts.take m).drop (l + 1)).filterMap (tries k) := by
    have sent := whole.sent
    rw [Option.toList_none, List.append_nil] at sent
    rw [← sent]
    apply List.mem_map.mpr
    exact ⟨(svc, e), List.mem_filterMap.mpr ⟨_, between_mem later before here, by simp [finds]⟩,
      rfl⟩
  obtain ⟨b, inside, tried⟩ := List.mem_filterMap.mp found
  obtain ⟨i, low, high, there⟩ := mem_between inside
  refine ⟨i, b, ?_, high, there, tried⟩
  by_contra early
  have ne : i ≠ h := by
    rintro rfl
    cases here.symm.trans there
    cases tried
  have sent := part.sent
  rw [Option.toList_none, List.append_nil] at sent
  have first : e.tx ∈ ((acts.take h).drop (l + 1)).filterMap (tries k) :=
    List.mem_filterMap.mpr ⟨b, between_mem low (by omega) there, tried⟩
  rw [← sent] at first
  obtain ⟨⟨svc', e'⟩, listed, same⟩ := List.mem_map.mp first
  obtain ⟨c, place, label⟩ := List.mem_filterMap.mp listed
  obtain ⟨looked, rfl⟩ := looks_of_finds label
  obtain ⟨n, _, _, spot⟩ := mem_between place
  -- both names lead to one session, so they are the same name, which is looked up once
  obtain ⟨s₁, session, service⟩ := target_session run spot
  obtain ⟨s₂, session', service'⟩ := target_session run here
  simp only at same
  rw [same, session'] at session
  cases session
  have known : svc ∈ ((acts.take h).drop (l + 1)).filterMap (looks k) := by
    rw [← service', service]
    exact List.mem_filterMap.mpr ⟨_, place, looked⟩
  have once := part.once
  rw [← part.looked] at once
  exact (List.nodup_append.mp once).2.2 svc known svc (by simp) rfl

def eventOf : BusFrame → Option Event
  | .event ev => some ev
  | _ => none

def queuesEvent (j : ConnId) : Act → Option (ConnId × Event)
  | .deliver k j' ev => if j' = j then some (k, ev) else none
  | _ => none

theorem events_queued (j : ConnId) (acts : List Act) :
    (pushed (brokerChannel j acts)).filterMap eventOf =
      (acts.filterMap (queuesEvent j)).map Prod.snd := by
  rw [TokimoSystem.broker_pushed, List.filterMap_filterMap, List.map_filterMap]
  apply List.filterMap_congr
  intro a _
  cases a with
  | deliver k j' ev | send c j' inv | answer c j' r | shutdownSend n j' =>
    by_cases eq : j' = j <;> simp [queues, queuesEvent, TokimoSystem.ofConn, eq, eventOf]
  | _ => rfl

theorem events_from (k j : ConnId) (acts : List Act) :
    acts.filterMap (delivers k j) =
      ((acts.filterMap (queuesEvent j)).filter fun o => o.1 = k).map Prod.snd := by
  induction acts with
  | nil => rfl
  | cons a acts ih =>
    cases a with
    | deliver k' j' ev =>
      by_cases eq : j' = j <;> by_cases same : k' = k <;>
        simp [delivers, queuesEvent, eq, same, ih]
    | _ => exact ih

/-- What the fan-outs of session `k` queue on the channel of another session. -/
structure Distributed (env : Env) (acts : List Act) (k : ConnId) (s : Session) (j : ConnId)
    (s' : Session) : Prop where
  queued : (pushed (brokerChannel j acts)).filterMap eventOf =
    (acts.filterMap (queuesEvent j)).map Prod.snd
  ordered : ∃ ls : List Nat, ls.Pairwise (· < ·) ∧
    (∀ l, l ∈ ls ↔ Receives env acts k j s'.service l) ∧
    ((acts.filterMap (queuesEvent j)).filter fun o => o.1 = k).map Prod.snd =
      ls.filterMap (stamped acts k s)
  complete : ∀ l m ev targets, Since acts k l m ev targets → At acts m (.fanned k) →
    s'.service ≠ s.service → (∃ v, BrokerRun env (acts.take l) v ∧ Matches v.broker s'.service ev.topic) →
    ∃ h found, l < h ∧ h < m ∧ At acts h (.target k s'.service found) ∧
      ∀ e, found = some e → ∃ i a, h < i ∧ i < m ∧ At acts i a ∧ tries k a = some e.tx
  apart : s'.service = s.service → ∀ ev, (k, ev) ∉ acts.filterMap (queuesEvent j)

theorem own_service_apart (run : BrokerRun env acts w) (session : w.session k = some s)
    {s' : Session} (owner : w.session j = some s') (same : s'.service = s.service) :
    (k, ev) ∉ acts.filterMap (queuesEvent j) := by
  intro mem
  obtain ⟨a, inside, queued⟩ := List.mem_filterMap.mp mem
  obtain ⟨i, here⟩ := List.mem_iff_getElem?.mp inside
  cases a with
  | deliver k' j' ev' =>
    by_cases eq : j' = j
    · subst eq
      simp only [queuesEvent, ↓reduceIte, Option.some.injEq, Prod.mk.injEq] at queued
      obtain ⟨rfl, rfl⟩ := queued
      obtain ⟨_, _, svc, _, follows⟩ := delivery_follows run here
      obtain ⟨_, _, s₀, _, mine, _, _, other⟩ := follows.published
      rw [session] at mine
      cases mine
      exact other (((session_service owner).mp follows.owner).trans same)
    · simp [queuesEvent, eq] at queued
  | _ => cases queued

/-- Fan-out to any other session is ordered and without duplicates. -/
theorem events_distributed (run : BrokerRun env acts w) (session : w.session k = some s)
    {s' : Session} (owner : w.session j = some s') : Distributed env acts k s j s' := by
  constructor
  · exact events_queued j acts
  · obtain ⟨ls, sorted, served, events⟩ := @served_positions env w acts k j s run (by
      intro s₀ now
      rw [session] at now
      cases now
      rfl)
    refine ⟨ls, sorted, fun l => ?_, ?_⟩
    · rw [served, served_receives run owner]
    · rw [← events_from, events]
  · intro l m ev targets since last other matching
    obtain ⟨v, v', before, step, after⟩ := state_at run since.1
    obtain ⟨s₀, mine, _, collected⟩ := fanout_collects step
    have later := session_keeps_run ⟨_, before⟩ after mine
    rw [session] at later
    cases later
    obtain ⟨u, before', matching⟩ := matching
    rw [trace_unique before' before] at matching
    have target : s'.service ∈ targets := (collected s'.service).mpr ⟨other, matching⟩
    obtain ⟨_, _, whole⟩ := finished_round run since last
    rw [← whole.looked, List.append_nil] at target
    obtain ⟨a, inside, label⟩ := List.mem_filterMap.mp target
    obtain ⟨found, rfl⟩ := looks_target label
    obtain ⟨h, low, high, here⟩ := mem_between inside
    refine ⟨h, found, low, high, here, ?_⟩
    rintro e rfl
    exact finished_sends run since last low high here
  · intro same ev
    exact own_service_apart run session owner same

abbrev audioSession : Session := ⟨audioHello (tokenText 0 1 2), 3, 3⟩

abbrev freshVideo : Session := ⟨videoHello (tokenText 0 1 1), 2, 2⟩

def scanned : Event := { libraryEvent with fromService := some "audio" }

def foundActs : List Act :=
  videoActs ++ [Act.subscribe 0 "library"] ++ endActs 0 ++ pairActs ++
    [Act.fanout 2 libraryEvent ["video"], .target 2 "video" (some (freshVideo.entry 1))]

def foundWorld : World := pairWorld.setPhase 2 (.live audioSession (.deliver scanned 1 []))

theorem found_run : BrokerRun standardEnv foundActs foundWorld := by
  have run := run_append ended_run pair_run
  have run := run.snoc (@Step.fanout standardEnv _ 2 _ libraryEvent ["video"] rfl (by decide)
    library_targets)
  have run := run.snoc (@Step.target standardEnv _ 2 _ _ "video" [] (some (freshVideo.entry 1))
    (setPhase_here _ _ _) rfl)
  rw [setPhase_setPhase] at run
  simp only [List.append_assoc] at run
  simp only [foundActs, List.append_assoc]
  exact run

def scannedActs : List Act := foundActs ++ [Act.deliver 2 1 scanned, .fanned 2]

theorem scanned_run : ∃ w, BrokerRun standardEnv scannedActs w ∧
    w.session 2 = some audioSession ∧ w.session 1 = some freshVideo := by
  have run := found_run.snoc (@Step.deliver standardEnv _ 2 1 _ _ [] (setPhase_here _ _ _)
    second_video_open)
  have run := run.snoc (@Step.fanned standardEnv _ 2 _ scanned (setPhase_here _ _ _))
  rw [List.append_assoc] at run
  exact ⟨_, run, rfl, rfl⟩

theorem scanned_distributed : ∃ w, BrokerRun standardEnv scannedActs w ∧
    Distributed standardEnv scannedActs 2 audioSession 1 freshVideo := by
  obtain ⟨w, run, publisher, subscriber⟩ := scanned_run
  exact ⟨w, run, events_distributed run publisher subscriber⟩

/-- The channel of session `j` is open when its service is looked up. -/
def FoundOpen (env : Env) (acts : List Act) (k j : ConnId) (svc : String) (l : Nat) : Prop :=
  ∃ ev targets h e, Since acts k l h ev targets ∧
    (∃ v, BrokerRun env (acts.take l) v ∧ Matches v.broker svc ev.topic) ∧
    At acts h (.target k svc (some e)) ∧
    ∃ v, BrokerRun env (acts.take h) v ∧ v.broker.registry.get svc = some e ∧ e.tx = j ∧
      (v.out j).IsOpen

/-- The session that was found ends before the event is sent. -/
def missedActs : List Act :=
  foundActs ++ (endActs 1 ++ [Act.abort 1, .writer 1 (.cancelled []), .undelivered 2 1, .fanned 2])

theorem missed_run : ∃ w, BrokerRun standardEnv missedActs w ∧
    w.session 2 = some audioSession ∧ w.session 1 = some freshVideo := by
  have connected : Connected foundWorld 1 freshVideo := ⟨rfl, rfl, rfl, second_video_open⟩
  have run := run_append found_run (session_ends connected)
  have run := run.snoc (Step.abort (setPhase_here _ _ _))
  have run := run.snoc (@Step.writer _ _ 1 _ _ (.cancelledIdle rfl rfl))
  have run := run.snoc (@Step.undelivered standardEnv _ 2 1 audioSession scanned [] rfl
    (fun alive => alive rfl))
  have run := run.snoc (@Step.fanned standardEnv _ 2 _ scanned (setPhase_here _ _ _))
  simp only [List.append_assoc] at run
  exact ⟨_, run, rfl, rfl⟩

theorem pair_reached : BrokerRun standardEnv (missedActs.take 39) pairWorld := by
  have run := run_append ended_run pair_run
  exact run

theorem missed_found : FoundOpen standardEnv missedActs 2 1 "video" 39 := by
  have fanout := pair_reached.snoc (@Step.fanout standardEnv _ 2 _ libraryEvent ["video"] rfl
    (by decide) library_targets)
  refine ⟨libraryEvent, ["video"], 40, freshVideo.entry 1, ⟨rfl, by omega, by decide⟩,
    ⟨pairWorld, pair_reached, "library", ?_, by decide⟩, rfl, _, fanout, rfl, rfl,
    second_video_open⟩
  decide +kernel

theorem missed_unserved : ¬ Served missedActs 2 1 39 := by
  rintro ⟨i, ev, _, _, here, _⟩
  have mem := List.mem_of_getElem? here
  simp [missedActs, foundActs, videoActs, endActs, pairActs, issueActs, connectActs] at mem

/-- An open channel at the lookup is not enough. -/
theorem found_unserved : ¬ ∀ acts w k j s s' l, BrokerRun standardEnv acts w →
    w.session k = some s → w.session j = some s' → s'.service ≠ s.service →
    (∃ m ev targets, Since acts k l m ev targets ∧ At acts m (.fanned k)) →
    FoundOpen standardEnv acts k j s'.service l → Served acts k j l := by
  intro claim
  obtain ⟨w, run, publisher, subscriber⟩ := missed_run
  apply missed_unserved
  refine claim missedActs w 2 1 _ _ 39 run publisher subscriber (by decide) ?_ missed_found
  exact ⟨49, libraryEvent, ["video"], ⟨rfl, by omega, by decide⟩, rfl⟩

end TokimoFanouts

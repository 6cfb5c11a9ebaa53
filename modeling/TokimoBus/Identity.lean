import TokimoBus.Calls
import TokimoBus.WrappingCounter

/-!
Which session an entry, a key of the sessions table or a call's variables stand for.
Everything that names a session was put there by that session, and while fewer than
2^64 generations have been handed out, a generation names one connection. So the
entry a call was admitted with and the handle it was routed to belong to one session.
-/
namespace TokimoIdentity
open TokimoFrame TokimoOutbound TokimoBroker TokimoSession TokimoCalls
open LabelledRuns WrappingCounter
variable {env : Env} {w w' : World} {a : Act} {acts : List Act} {k k' : ConnId} {s s' : Session}

theorem step_session (h : Step env w a w') (now : w'.session k = some s) :
    w.session k = some s ∨ a = .generate k s := by
  cases h with
  | @generate j hello id s' here named =>
    rcases moved_to now with old | ⟨rfl, same⟩
    · exact Or.inl old
    · cases same
      exact Or.inr rfl
  | hello here =>
    refine Or.inl (moved_from here ?_ now)
    unfold helloPhase
    split <;> simp [Phase.session]
  | consume here =>
    refine Or.inl (moved_from here ?_ now)
    split <;> simp [Phase.session]
  | accept here | noHello here | reject here | rejectBroken here | clientId here
  | publish here | ack here | ackBroken here | rollback here | attach here
  | probe here | fanout here | target here | deliver here | undelivered here | fanned here
  | hangup here | detach here | check here | forget here | removeIf here | abort here =>
    exact Or.inl (moved_from here (by simp [Phase.session]) now)
  | _ => exact Or.inl now

theorem session_history (run : BrokerRun env acts w) (now : w.session k = some s) :
    Act.generate k s ∈ acts :=
  label_of_gained (p := fun w => w.session k = some s)
    (by simp [World.session, World.init, Phase.session])
    (fun _ _ _ step now => step_session step now) run now

theorem session_keeps_run {rest : List Act} (before : BrokerReachable env w)
    (run : Run (Step env) w rest w') (now : w.session k = some s) : w'.session k = some s :=
  stable_run (p := fun v => v.session k = some s) (fun _ _ _ _ step now => session_keeps step now)
    before run now

def generateTakes : Act → Option UInt64
  | .generate _ s => some s.generation
  | _ => none

theorem generate_counts :
    Counts (Step env) (fun w => w.broker.registry.nextGen) generateTakes 1 where
  take := by
    intro w a w' v h takes
    cases h with
    | generate here named =>
      simp only [generateTakes, Option.some.injEq] at takes
      subst takes
      exact ⟨by rw [named]; rfl, rfl⟩
    | _ => simp [generateTakes] at takes
  keep := by
    intro w a w' h takes
    cases h with
    | generate => simp [generateTakes] at takes
    | _ => rfl

/-- With at most 2^64 registrations, a generation names one connection. -/
theorem generation_unique (run : BrokerRun env acts w) (few : taken generateTakes acts ≤ 2 ^ 64)
    (first : w.session k = some s) (second : w.session k' = some s')
    (same : s.generation = s'.generation) : k = k' := by
  obtain ⟨i, here⟩ := List.mem_iff_getElem?.mp (session_history run first)
  obtain ⟨j, there⟩ := List.mem_iff_getElem?.mp (session_history run second)
  have places := taken_once generate_counts run few here (v := s.generation) rfl there
    (by rw [same]; rfl)
  subst places
  rw [here] at there
  cases there
  rfl

/-- Whatever names a session in the broker's tables was put there by that session. -/
structure Named (w : World) : Prop where
  entries : ∀ service e, w.broker.registry.entries service = some e →
    ∃ s, w.session e.tx = some s ∧ e = s.entry e.tx ∧ s.service = service
  attached : ∀ key h, w.broker.sessions key = some h →
    ∃ s, w.session h.session = some s ∧ key = (s.service, s.generation)
  admitted : ∀ c e, entry (w.callPhase c) = some e →
    ∃ s, w.session e.tx = some s ∧ e = s.entry e.tx ∧ s.service = (w.call c).service
  routed : ∀ c e k, routed (w.callPhase c) = some (e, k) →
    ∃ s, w.session k = some s ∧ s.service = (w.call c).service ∧ s.generation = e.generation

theorem session_of_phase {stage : Stage} (here : w.phase k = .live s stage) :
    w.session k = some s := by
  simp [World.session, here, Phase.session]

theorem entries_step (h : Step env w a w') {service : String} {e : ServiceEntry}
    (now : w'.broker.registry.entries service = some e) :
    w.broker.registry.entries service = some e ∨
      ∃ s, w.phase e.tx = .live s .publish ∧ a = .publish e.tx e ∧ e = s.entry e.tx ∧
        s.service = service := by
  have removed : ∀ {name : String} {generation : UInt64},
      (w.broker.registry.removeIf name generation).entries service = some e →
      w.broker.registry.entries service = some e := by
    intro name generation now
    unfold Registry.removeIf at now
    split at now
    · split at now
      · by_cases same : service = name
        · simp [same] at now
        · simpa [same] using now
      · exact now
    · exact now
  cases h with
  | @publish k s here =>
    by_cases same : service = s.service
    · subst same
      have value : s.entry k = e := by
        simpa [World.setPhase, World.withBroker, Broker.withRegistry, Registry.publish,
          Session.entry] using now
      subst value
      exact Or.inr ⟨s, here, rfl, rfl, rfl⟩
    · refine Or.inl ?_
      simpa [World.setPhase, World.withBroker, Broker.withRegistry, Registry.publish,
        Session.entry, same] using now
  | rollback here => exact Or.inl (removed now)
  | removeIf here => exact Or.inl (removed now)
  | _ => exact Or.inl now

theorem sessions_step (h : Step env w a w') {key : String × UInt64} {hd : SessionHandle}
    (now : w'.broker.sessions key = some hd) :
    w.broker.sessions key = some hd ∨
      ∃ s, w.phase hd.session = .live s .attach ∧ a = .attach hd.session ∧
        key = (s.service, s.generation) := by
  cases h with
  | @attach k s here =>
    by_cases same : key = (s.service, s.generation)
    · subst same
      have value : hd = ⟨k⟩ := by
        simpa [World.setPhase, World.withBroker, Broker.attachSession, eq_comm] using now
      subst value
      exact Or.inr ⟨s, here, rfl, rfl⟩
    · refine Or.inl ?_
      simpa [World.setPhase, World.withBroker, Broker.attachSession, same] using now
  | @detach k s here =>
    by_cases same : key = (s.service, s.generation)
    · simp [World.setPhase, World.withBroker, Broker.removeSession, same] at now
    · refine Or.inl ?_
      simpa [World.setPhase, World.withBroker, Broker.removeSession, same] using now
  | _ => exact Or.inl now

theorem route_found {c : CallId} {e : ServiceEntry} (h : Step env w (.route c k) w')
    (here : w.callPhase c = .route e) :
    w.broker.sessions ((w.call c).service, e.generation) = some ⟨k⟩ := by
  cases h with
  | route now found =>
    rw [here] at now
    cases now
    exact found

theorem entry_begun {c : CallId} {e : ServiceEntry} (held : entry (w.callPhase c) = some e) :
    w.callPhase c ≠ .unused := by
  intro unused
  rw [unused] at held
  cases held

theorem routed_begun {c : CallId} {e : ServiceEntry}
    (held : routed (w.callPhase c) = some (e, k)) : w.callPhase c ≠ .unused := by
  intro unused
  rw [unused] at held
  cases held

theorem named_step : Stable (Step env) World.init Named := by
  intro w a w' _ h known
  have keeps : ∀ {k : ConnId} {s : Session}, w.session k = some s → w'.session k = some s :=
    session_keeps h
  refine ⟨?_, ?_, ?_, ?_⟩
  · intro service e now
    rcases entries_step h now with old | ⟨s, here, _, same⟩
    · obtain ⟨s, session, same⟩ := known.entries service e old
      exact ⟨s, keeps session, same⟩
    · exact ⟨s, keeps (session_of_phase here), same⟩
  · intro key hd now
    rcases sessions_step h now with old | ⟨s, here, _, same⟩
    · obtain ⟨s, session, same⟩ := known.attached key hd old
      exact ⟨s, keeps session, same⟩
    · exact ⟨s, keeps (session_of_phase here), same⟩
  · intro c e now
    rcases (step_gains h c).entry e now with old | rfl
    · obtain ⟨s, session, same, service⟩ := known.admitted c e old
      rw [← call_keeps h (entry_begun old)] at service
      exact ⟨s, keeps session, same, service⟩
    · cases h with
      | permit here found passed =>
        obtain ⟨s, session, same, service⟩ := known.entries _ e found
        exact ⟨s, session, same, service⟩
  · intro c e k now
    rcases (step_gains h c).routed e k now with old | ⟨rfl, here⟩
    · obtain ⟨s, session, service, generation⟩ := known.routed c e k old
      rw [← call_keeps h (routed_begun old)] at service
      exact ⟨s, keeps session, service, generation⟩
    · obtain ⟨s, session, key⟩ := known.attached _ _ (route_found h here)
      simp only [Prod.mk.injEq] at key
      have args : w'.call c = w.call c := call_keeps h (by simp [here])
      exact ⟨s, keeps session, by rw [args, key.1], key.2.symm⟩

theorem named (reach : BrokerReachable env w) : Named w := by
  refine reachable_invariant ⟨?_, ?_, ?_, ?_⟩ named_step reach
  · intro service e now
    cases now
  · intro key hd now
    cases now
  · intro c e now
    cases now
  · intro c e k now
    cases now

theorem entry_published (run : BrokerRun env acts w) {service : String} {e : ServiceEntry}
    (now : w.broker.registry.get service = some e) : Act.publish e.tx e ∈ acts :=
  label_of_gained (p := fun w => w.broker.registry.entries service = some e)
    (by simp [World.init, Broker.new, Registry.empty])
    (fun _ _ _ step now => (entries_step step now).imp_right fun found => by
      obtain ⟨s, _, label, _⟩ := found
      exact label) run now

def Apart (w : World) : Prop :=
  ∀ j k s s', w.session j = some s → w.session k = some s' → s.generation = s'.generation → j = k

theorem few_apart (run : BrokerRun env acts w) (few : taken generateTakes acts ≤ 2 ^ 64) :
    Apart w :=
  fun _ _ _ _ first second same => generation_unique run few first second same

theorem routed_apart {rest : List Act} (reach : BrokerReachable env w)
    (after : Run (Step env) w rest w') (apart : Apart w') {c : CallId} {e : ServiceEntry}
    (now : routed (w.callPhase c) = some (e, k)) : k = e.tx := by
  obtain ⟨s, session, service, generation⟩ := (named reach).routed c e k now
  have held : entry (w.callPhase c) = some e := by
    revert now
    cases w.callPhase c <;> simp [routed, entry] <;> rintro rfl _ <;> rfl
  obtain ⟨s', session', same, _⟩ := (named reach).admitted c e held
  refine apart k e.tx s s' (session_keeps_run reach after session)
    (session_keeps_run reach after session') ?_
  rw [generation, same]
  rfl

end TokimoIdentity

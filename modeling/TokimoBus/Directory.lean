import TokimoBus.Callable

/-!
The two tables in which the broker looks a service up, and what is in them. The sessions table holds
the sessions between `attach_session` and `detach_session`, and no others. The registry holds, under
each name, the entry that was put there last, until the session that it is of takes it out.
-/
namespace TokimoDirectory
open TokimoFrame TokimoOutbound TokimoBroker TokimoSession TokimoIdentity TokimoRegistrations
open TokimoCallable TokimoProgress TokimoWire LabelledRuns WrappingCounter
variable {env : Env} {w w' : World} {a : Act} {acts : List Act} {k : ConnId} {s : Session}
  {service : String} {e : ServiceEntry}

def listed : Phase → Bool
  | .live _ .publish | .live _ .abort | .live _ .done => false
  | .live _ _ => true
  | _ => false

def keyed : Phase → Bool
  | .live _ stage => attached stage
  | _ => false

theorem listed_step (h : Step env w a w') (now : listed (w.phase k) = true) :
    listed (w'.phase k) = true ∨ withdraws a = some k := by
  have moved : ∀ {j : ConnId} {p q : Phase}, w.phase j = q →
      (listed q = true → listed p = true) → listed (Function.update w.phase j p k) = true := by
    intro j p q here same
    exact moved_on (P := fun p => listed p = true) here same now
  have leaves : ∀ {j : ConnId} {p : Phase}, withdraws a = some j →
      listed (Function.update w.phase j p k) = true ∨ withdraws a = some k := by
    intro j p own
    by_cases eq : k = j
    · subst eq
      exact Or.inr own
    · rw [Function.update_of_ne eq]
      exact Or.inl now
  cases h with
  | rollback => exact leaves rfl
  | removeIf => exact leaves rfl
  | hello here =>
    refine Or.inl (moved here ?_)
    simp [listed]
  | target here =>
    refine Or.inl (moved here ?_)
    unfold targetStage
    split <;> simp [listed]
  | check here =>
    refine Or.inl (moved here ?_)
    split <;> simp [listed]
  | accept here | noHello here | consume here | reject here | rejectBroken here | clientId here
  | generate here | publish here | ack here | ackBroken here | attach here | probe here
  | fanout here | deliver here | undelivered here | fanned here | hangup here | detach here
  | forget here | abort here =>
    exact Or.inl (moved here (by simp [listed]))
  | _ => exact Or.inl now

theorem withdrawn_gone (h : Step env w a w') (withdrawn : withdraws a = some k)
    (own : w.session k = some s) :
    ∀ e, w'.broker.registry.get s.service = some e → e.generation ≠ s.generation := by
  have gone : ∀ {g : UInt64} e, (w.broker.registry.removeIf s.service g).get s.service = some e →
      e.generation ≠ g := by
    intro g e found same
    unfold Registry.removeIf at found
    split at found
    · rename_i entry there
      split at found
      · simp [Registry.get] at found
      · rename_i other
        rw [Registry.get, there] at found
        cases found
        exact other same
    · rename_i absent
      rw [Registry.get, absent] at found
      cases found
  cases h with
  | rollback here | removeIf here =>
    cases withdrawn
    have same := session_of_phase here
    rw [own] at same
    cases same
    exact gone
  | _ => cases withdrawn

theorem entry_listed (reach : BrokerReachable env w)
    (found : w.broker.registry.get service = some e) : listed (w.phase e.tx) = true := by
  refine reachable_invariant (p := fun w => ∀ service e, w.broker.registry.get service = some e →
    listed (w.phase e.tx) = true) ?_ ?_ reach service e found
  · intro service e now
    cases now
  · intro v a v' reached step known service e now
    rcases entries_step step now with old | ⟨s, here, label, _⟩
    · rcases listed_step step (known service e old) with still | withdrawn
      · exact still
      · obtain ⟨s, own, value, rfl⟩ := (named reached).entries service e old
        have other := withdrawn_gone step withdrawn own e now
        rw [value] at other
        exact absurd rfl other
    · generalize e.tx = j at label
      subst label
      cases step with
      | publish there => simp [World.setPhase, World.withBroker, listed]

theorem withdraws_rank (h : Step env w a w') (withdrawn : withdraws a = some k) :
    14 ≤ (w'.phase k).rank := by
  cases h with
  | rollback here | removeIf here =>
    cases withdrawn
    simp [World.setPhase, Phase.rank, Stage.rank]
  | _ => cases withdrawn

theorem publish_once {m n : Nat} {e' : ServiceEntry} (run : BrokerRun env acts w)
    (here : At acts m (.publish k e)) (there : At acts n (.publish k e')) : m = n := by
  refine at_most_once (fun a => ∃ e, a = .publish k e) (phase_rank_stable k 6) ?_ ?_ run here
    ⟨e, rfl⟩ there ⟨e', rfl⟩
  · rintro v a v' _ step ⟨e, rfl⟩ spent
    cases step with
    | publish now => simp [now, Phase.rank, Stage.rank] at spent
  · rintro v a v' _ step ⟨e, rfl⟩
    cases step with
    | publish => simp [World.setPhase, World.withBroker, Phase.rank, Stage.rank]

/-- Entry `e` was put under `service`, and nothing has come over it or taken it out. -/
def Last (acts : List Act) (service : String) (e : ServiceEntry) : Prop :=
  ∃ i, At acts i (.publish e.tx e) ∧ e.service = service ∧
    (∀ j k e', i < j → At acts j (.publish k e') → e'.service ≠ service) ∧
    ∀ a ∈ acts, withdraws a ≠ some e.tx

theorem entry_last (run : BrokerRun env acts w)
    (found : w.broker.registry.get service = some e) : Last acts service e := by
  have listed_now := entry_listed ⟨_, run⟩ found
  obtain ⟨s, own, value, named_so⟩ := (named ⟨_, run⟩).entries service e found
  obtain ⟨i, here⟩ := List.mem_iff_getElem?.mp (entry_published run found)
  have service_is : e.service = service := by
    rw [value]
    exact named_so
  refine ⟨i, here, service_is, fun j k e' later there same => ?_, fun a mem withdrawn => ?_⟩
  · -- what is put there later stays until `e` comes again, and it does not
    obtain ⟨v, v', before, step, rest⟩ := run_at run there
    have other : v'.broker.registry.get service ≠ some e := by
      cases step with
      | @publish _ s' now =>
        intro back
        change Function.update v.broker.registry.entries s'.service _ service = some e at back
        have own : s'.service = service := same
        rw [own, Function.update_self] at back
        cases back
        have := publish_once run here there
        omega
    have mem : Act.publish e.tx e ∈ acts.drop (j + 1) :=
      label_of_gained (p := fun v : World => v.broker.registry.get service = some e) other
        (fun _ _ _ step now => (entries_step step now).imp_right fun new => by
          obtain ⟨_, _, label, _⟩ := new
          exact label) rest found
    obtain ⟨n, again⟩ := List.mem_iff_getElem?.mp mem
    rw [List.getElem?_drop] at again
    have := publish_once run here again
    omega
  · have past := holds_after (phase_rank_stable e.tx 14) run mem fun _ _ _ step =>
      withdraws_rank step withdrawn
    generalize w.phase e.tx = p at listed_now past
    cases p with
    | live s stage => cases stage <;> simp [listed, Phase.rank, Stage.rank] at listed_now past
    | _ => cases listed_now

theorem keyed_step (h : Step env w a w') (now : keyed (w'.phase k) = true) :
    keyed (w.phase k) = true ∨ a = .attach k := by
  have moved : ∀ {j : ConnId} {p q : Phase}, w.phase j = q →
      (keyed p = true → keyed q = true) → keyed (Function.update w.phase j p k) = true →
      keyed (w.phase k) = true := by
    intro j p q here same now
    exact moved_back (P := fun p => keyed p = true) here same now
  cases h with
  | attach here =>
    rcases moved_made (P := fun p => keyed p = true) (fun eq _ => eq) now with old | rfl
    · exact Or.inl old
    · exact Or.inr rfl
  | hello here =>
    refine Or.inl (moved here ?_ now)
    unfold helloPhase
    split <;> simp [keyed]
  | consume here =>
    refine Or.inl (moved here ?_ now)
    split <;> simp [keyed]
  | target here =>
    refine Or.inl (moved here ?_ now)
    simp [keyed, attached]
  | check here =>
    refine Or.inl (moved here ?_ now)
    split <;> simp [keyed, attached]
  | accept here | noHello here | reject here | rejectBroken here | clientId here
  | generate here | publish here | ack here | ackBroken here | rollback here | probe here
  | fanout here | deliver here | undelivered here | fanned here | hangup here | detach here
  | forget here | removeIf here | abort here =>
    exact Or.inl (moved here (by simp [keyed, attached]) now)
  | _ => exact Or.inl now

theorem keyed_found (run : BrokerRun env acts w) : taken generateTakes acts ≤ 2 ^ 64 →
    ∀ k s, w.session k = some s → keyed (w.phase k) = true →
      w.broker.sessions (s.service, s.generation) = some ⟨k⟩ := by
  induction run with
  | nil =>
    intro _ k s own
    cases own
  | @snoc acts w w' a before step ih =>
    intro few k s own now
    have early : taken generateTakes acts ≤ 2 ^ 64 := by
      rw [taken_append] at few
      omega
    have before_own : w.session k = some s := by
      rcases step_session step own with old | rfl
      · exact old
      · cases step with
        | generate => simp [World.setPhase, keyed, attached] at now
    rcases keyed_step step now with old | rfl
    · have there := ih early k s before_own old
      have owner : ∀ {j : ConnId} {s' : Session}, w.session j = some s' →
          (s.service, s.generation) = (s'.service, s'.generation) → k = j := by
        intro j s' other same
        simp only [Prod.mk.injEq] at same
        exact generation_unique before early before_own other same.2
      cases step with
      | @attach j s' here =>
        change Function.update w.broker.sessions _ _ _ = _
        rw [Function.update_of_ne]
        · exact there
        · intro same
          obtain rfl := owner (session_of_phase here) same
          rw [here] at old
          cases old
      | @detach j s' here =>
        change Function.update w.broker.sessions _ _ _ = _
        rw [Function.update_of_ne]
        · exact there
        · intro same
          obtain rfl := owner (session_of_phase here) same
          simp [World.setPhase, keyed, attached] at now
      | _ => exact there
    · exact attach_stores step before_own

structure Exact (acts : List Act) (w : World) : Prop where
  registry : ∀ service e, w.broker.registry.get service = some e ↔ Last acts service e
  sessions : ∀ service generation k, w.broker.sessions (service, generation) = some ⟨k⟩ ↔
    ∃ s stage, w.phase k = .live s stage ∧ attached stage = true ∧ s.service = service ∧
      s.generation = generation

/-- While the generations have not wrapped round, each table holds what it should and nothing else. -/
theorem directory_exact (run : BrokerRun env acts w) (few : taken generateTakes acts ≤ 2 ^ 64) :
    Exact acts w where
  registry := by
    intro service e
    refine ⟨entry_last run, ?_⟩
    rintro ⟨i, here, rfl, last, stays⟩
    exact last_entry_current run few i e.tx e here last stays
  sessions := by
    intro service generation k
    constructor
    · intro found
      obtain ⟨s, stage, phase, inside, same⟩ := key_attached ⟨_, run⟩ found
      simp only [Prod.mk.injEq] at same
      exact ⟨s, stage, phase, inside, same.1.symm, same.2.symm⟩
    · rintro ⟨s, stage, phase, inside, rfl, rfl⟩
      refine keyed_found run few k s (session_of_phase phase) ?_
      rw [phase]
      exact inside

theorem video_exact : Exact videoActs videoWorld :=
  directory_exact video_run (by decide)

end TokimoDirectory

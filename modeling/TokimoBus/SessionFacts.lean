import TokimoBus.Session

/-!
What a step can do to the phases of connections and calls, and the facts that
therefore never change again: the identity of an admitted session, the arguments
of a call, and which stretches of `serve` and `call_with_timeout` lie behind a
task. Every invariant of the broker starts from these.
-/
namespace TokimoSession
open TokimoFrame TokimoOutbound TokimoBroker LabelledRuns
variable {env : Env} {w w' : World} {a : Act}

def CallPhase.rank : CallPhase → Nat
  | .unused => 0
  | .start => 1
  | .localGate _ => 2
  | .localRun _ => 3
  | .lookup => 4
  | .route _ => 5
  | .number _ _ => 6
  | .register _ _ _ => 7
  | .send _ _ _ => 8
  | .await _ _ => 9
  | .expire _ _ => 10
  | .done _ => 11
  | .caching _ => 12
  | .cancelled | .answered => 13

/-- How far `serve` has come; the main loop counts as one place. -/
def Stage.rank : Stage → Nat
  | .publish => 5
  | .ack => 6
  | .rollback | .attach => 7
  | .probe => 8
  | .read | .fan _ _ | .deliver _ _ _ => 9
  | .detach => 10
  | .check => 11
  | .forget => 12
  | .removeIf => 13
  | .abort => 14
  | .done => 15

def Phase.rank : Phase → Nat
  | .unused => 0
  | .handshake => 1
  | .check _ => 2
  | .reject _ | .admitted _ => 3
  | .refused | .numbered _ _ => 4
  | .live _ stage => stage.rank

theorem moved_rank {f : CallId → CallPhase} {c d : CallId} {p q : CallPhase}
    (here : f d = q) (up : q.rank < p.rank) :
    Function.update f d p c = f c ∨ (f c).rank < (Function.update f d p c).rank := by
  by_cases same : c = d
  · subst same
    exact Or.inr (by simpa [here] using up)
  · exact Or.inl (by simp [same])

theorem moved_phase {f : ConnId → Phase} {j k : ConnId} {p q : Phase} (here : f j = q)
    (up : q.rank ≤ p.rank) (same : q.session = none ∨ p.session = q.session) :
    (f k).rank ≤ (Function.update f j p k).rank ∧
      ((f k).session = none ∨ (Function.update f j p k).session = (f k).session) := by
  by_cases eq : k = j
  · subst eq
    simpa [here] using ⟨up, same⟩
  · simp [eq]

theorem appCall_rank (config : BrokerConfig) (k : ConnId) (originator : String) (inv : Invoke) :
    0 < (appCall config k originator inv).2.rank := by
  unfold appCall
  split <;> simp [CallPhase.rank]

theorem step_call_rank (h : Step env w a w') (c : CallId) :
    w'.callPhase c = w.callPhase c ∨ (w.callPhase c).rank < (w'.callPhase c).rank := by
  cases h with
  | spawn _ here => exact moved_rank here (appCall_rank _ _ _ _)
  | probeCheck _ here =>
    refine moved_rank here ?_
    split <;> simp [CallPhase.rank]
  | probe _ here | call here | localHit here | localMiss here | localAdmit here
  | localRefuse here | localReturn here | localTimeout here | lookupNone here | permit here
  | refuse here | routeNone here | route here | number here | register here | send here
  | sendClosed here | complete here | senderGone here | elapse here | expire here
  | cancelStart _ here | cancelLocal _ here | cancelAwait _ here | answer _ here
  | answerClosed _ here | probeFail _ here | cache _ here =>
    exact moved_rank here (by simp [CallPhase.rank])
  | _ => exact Or.inl rfl

theorem rank_stable (c : CallId) (n : Nat) :
    Stable (Step env) World.init (fun v => n ≤ (v.callPhase c).rank) := by
  intro v a w _ step now
  rcases step_call_rank step c with same | up
  · rwa [same]
  · exact Nat.le_trans now (Nat.le_of_lt up)

/-- `serve` never goes back, and an admitted session keeps its identity. -/
theorem step_phase (h : Step env w a w') (k : ConnId) :
    (w.phase k).rank ≤ (w'.phase k).rank ∧
      ((w.phase k).session = none ∨ (w'.phase k).session = (w.phase k).session) := by
  cases h with
  | hello here =>
    refine moved_phase here ?_ (Or.inl rfl)
    unfold helloPhase
    split <;> simp [Phase.rank]
  | consume here =>
    refine moved_phase here ?_ (Or.inl rfl)
    split <;> simp [Phase.rank]
  | target here =>
    refine moved_phase here ?_ (Or.inr rfl)
    unfold targetStage
    split <;> simp [Phase.rank, Stage.rank]
  | check here =>
    refine moved_phase here ?_ (Or.inr rfl)
    split <;> simp [Phase.rank, Stage.rank]
  | accept here | noHello here | reject here | rejectBroken here | clientId here
  | generate here =>
    exact moved_phase here (by simp [Phase.rank, Stage.rank]) (Or.inl rfl)
  | publish here | ack here | ackBroken here | rollback here | attach here | probe here
  | fanout here | deliver here | undelivered here | fanned here | hangup here | detach here
  | forget here | removeIf here | abort here =>
    exact moved_phase here (by simp [Phase.rank, Stage.rank]) (Or.inr rfl)
  | _ => exact ⟨Nat.le_refl _, Or.inr rfl⟩

theorem phase_rank_stable (k : ConnId) (n : Nat) :
    Stable (Step env) World.init (fun v => n ≤ (v.phase k).rank) := by
  intro v a w _ step now
  exact Nat.le_trans now (step_phase step k).1

theorem session_keeps (h : Step env w a w') {k : ConnId} {s : Session}
    (now : w.session k = some s) : w'.session k = some s := by
  rcases (step_phase h k).2 with absent | same
  · unfold World.session at now
    rw [absent] at now
    cases now
  · exact same.trans now

theorem call_keeps (h : Step env w a w') {c : CallId} (begun : w.callPhase c ≠ .unused) :
    w'.call c = w.call c := by
  cases h with
  | probe _ new | spawn _ new | call new =>
    refine Function.update_of_ne ?_ _ _
    rintro rfl
    exact begun new
  | _ => rfl

theorem begun_keeps (h : Step env w a w') {c : CallId} (begun : w.callPhase c ≠ .unused) :
    w'.callPhase c ≠ .unused := by
  rcases step_call_rank h c with same | up
  · rwa [same]
  · intro reset
    rw [reset] at up
    simp [CallPhase.rank] at up

theorem step_begins (h : Step env w a w') {c : CallId} (new : w.callPhase c = .unused)
    (begun : w'.callPhase c ≠ .unused) :
    (∃ x, a = .call c x ∧ w'.call c = x ∧ x.origin = .host) ∨
      (∃ k s, a = .probe k c ∧ w.session k = some s ∧ w'.call c = probeCall env.config s) ∨
      ∃ k s inv, a = .spawn k inv c ∧ w.session k = some s ∧
        w'.call c = (appCall env.config k s.service inv).1 ∧
        w'.callPhase c = (appCall env.config k s.service inv).2 := by
  have other : ∀ {f : CallId → CallPhase} {d : CallId} {p q : CallPhase}, f d = q →
      q ≠ .unused → f c = .unused → Function.update f d p c ≠ .unused → False := by
    intro f d p q here old unused changed
    have ne : c ≠ d := by
      rintro rfl
      exact old (here.symm.trans unused)
    rw [Function.update_of_ne ne] at changed
    exact changed unused
  cases h with
  | @call c' x _ host =>
    by_cases same : c = c'
    · subst same
      exact Or.inl ⟨x, rfl, by simp [World.begin], host⟩
    · exact absurd (by simpa [World.begin, World.setCallPhase, same] using new) begun
  | @probe k s c' here _ =>
    by_cases same : c = c'
    · subst same
      have session : w.session k = some s := by simp [World.session, here, Phase.session]
      exact Or.inr (Or.inl ⟨k, s, rfl, session, by simp [World.begin, World.setPhase]⟩)
    · refine absurd ?_ begun
      simpa [World.begin, World.setCallPhase, World.setPhase, World.withBroker, same] using new
  | @spawn k s inv c' here _ =>
    by_cases same : c = c'
    · subst same
      have session : w.session k = some s := by simp [World.session, here, Phase.session]
      exact Or.inr (Or.inr ⟨k, s, inv, rfl, session, by simp [World.begin],
        by simp [World.begin, World.setCallPhase]⟩)
    · exact absurd (by simpa [World.begin, World.setCallPhase, same] using new) begun
  | localHit here | localMiss here | localAdmit here
  | localRefuse here | localReturn here | localTimeout here | lookupNone here | permit here
  | refuse here | routeNone here | route here | number here | register here | send here
  | sendClosed here | complete here | senderGone here | elapse here | expire here
  | cancelStart _ here | cancelLocal _ here | cancelAwait _ here | answer _ here
  | answerClosed _ here | probeFail _ here | cache _ here | probeCheck _ here =>
    exact (other here (by simp) new begun).elim
  | _ => exact absurd new begun

theorem appCall_origin (config : BrokerConfig) (k : ConnId) (originator : String)
    (inv : Invoke) : (appCall config k originator inv).1.origin = .app k inv := by
  unfold appCall
  split <;> rfl

/-- A call whose origin is a session was spawned by that session for that Invoke frame. -/
theorem app_call_spawned {acts : List Act} (run : BrokerRun env acts w) {c : CallId}
    {k : ConnId} {inv : Invoke} (begun : w.callPhase c ≠ .unused)
    (app : (w.call c).origin = .app k inv) : Act.spawn k inv c ∈ acts := by
  refine label_of_gained (p := fun w => w.callPhase c ≠ .unused ∧ (w.call c).origin = .app k inv)
    (fun now => absurd rfl now.1) ?_ run ⟨begun, app⟩
  rintro w a w' step ⟨begun, app⟩
  by_cases new : w.callPhase c = .unused
  · rcases step_begins step new begun with ⟨x, _, rfl, host⟩ | ⟨k', s, _, _, args⟩ |
      ⟨k', s, inv', rfl, _, args, _⟩
    · rw [host] at app
      cases app
    · rw [args] at app
      cases app
    · rw [args, appCall_origin] at app
      cases app
      exact Or.inr rfl
  · rw [call_keeps step new] at app
    exact Or.inl ⟨new, app⟩

def queues : Act → Option (ConnId × BusFrame)
  | .deliver _ j ev => some (j, .event ev)
  | .send _ j inv => some (j, .invoke inv)
  | .answer _ j r => some (j, .response r)
  | .shutdownSend _ j => some (j, .shutdown)
  | _ => none

theorem pushed_queue {w : World} {j k : ConnId} {f g : BusFrame}
    (now : g ∈ ((w.push j f).out k).queue) : g ∈ (w.out k).queue ∨ some (j, f) = some (k, g) := by
  by_cases eq : k = j
  · subst eq
    simp only [World.push, World.setOut, Function.update_self, Outbound.push, List.mem_append,
      List.mem_singleton] at now
    rcases now with old | rfl
    · exact Or.inl old
    · exact Or.inr rfl
  · simp only [World.push, World.setOut, Function.update_of_ne eq] at now
    exact Or.inl now

theorem step_queue (h : Step env w a w') {k : ConnId} {g : BusFrame}
    (now : g ∈ (w'.out k).queue) : g ∈ (w.out k).queue ∨ queues a = some (k, g) := by
  have kept : ∀ {j : ConnId} {o : Outbound}, (∀ g ∈ o.queue, g ∈ (w.out j).queue) →
      g ∈ (Function.update w.out j o k).queue → g ∈ (w.out k).queue := by
    intro j o sub now
    exact moved_back (P := fun o : Outbound => g ∈ o.queue) rfl (sub g) now
  cases h with
  | deliver | send | answer | shutdownSend => exact pushed_queue now
  | reject | rejectBroken | ack | ackBroken | abort =>
    refine Or.inl (kept ?_ now)
    exact fun g mem => mem
  | rollback => exact Or.inl (kept (by simp [Outbound.stop]) now)
  | writer one =>
    refine Or.inl (kept ?_ now)
    cases one with
    | recv _ next => simp_all
    | wrote => simp [Outbound.direct]
    | _ => simp [Outbound.stop, Outbound.tear]
  | _ => exact Or.inl now

theorem queued_history {acts : List Act} (run : BrokerRun env acts w) {k : ConnId} {g : BusFrame}
    (now : g ∈ (w.out k).queue) : ∃ a ∈ acts, queues a = some (k, g) :=
  event_of_gained (fun a => queues a = some (k, g)) (p := fun w => g ∈ (w.out k).queue)
    (by simp [World.init, Outbound.fresh]) (fun _ _ _ step now => step_queue step now) run now

theorem writer_unique {e : Encoder} {o o' o'' : Outbound} {x : WriterAct} (h : WriterStep e o x o')
    (h' : WriterStep e o x o'') : o' = o'' := by
  cases h <;> cases h' <;> simp_all

theorem publish_inv {k : ConnId} {e : ServiceEntry} (h : Step env w (.publish k e) w') :
    ∃ s, w.phase k = .live s .publish ∧ e = s.entry k ∧
      w' = (w.withBroker (w.broker.withRegistry (w.broker.registry.publish e))).setPhase k
        (.live s .ack) := by
  cases h with
  | publish here => exact ⟨_, here, rfl, rfl⟩

theorem send_inv {c : CallId} {j : ConnId} {inv : Invoke} (h : Step env w (.send c j inv) w') :
    ∃ e k r, w.callPhase c = .send e k r ∧ w' = (w.push j (.invoke inv)).setCallPhase c (.await k r) := by
  cases h with
  | send here => exact ⟨_, _, _, here, rfl⟩

theorem answer_inv {c : CallId} {j : ConnId} {r : Response} (h : Step env w (.answer c j r) w') :
    w' = (w.push j (.response r)).setCallPhase c .answered := by
  cases h with
  | answer => rfl

theorem step_unique {w'' : World} (h : Step env w a w') (h' : Step env w a w'') : w' = w'' := by
  cases h with
  | writer one =>
    cases h' with
    | writer other => rw [writer_unique one other]
  | publish here =>
    obtain ⟨s, there, _, after⟩ := publish_inv h'
    cases here.symm.trans there
    exact after.symm
  | send here =>
    obtain ⟨e, k, r, there, after⟩ := send_inv h'
    cases here.symm.trans there
    exact after.symm
  | answer => exact (answer_inv h').symm
  | _ => cases h' <;> grind only

theorem trace_unique {v v' v'' : World} {acts : List Act} (run : Run (Step env) v acts v')
    (run' : Run (Step env) v acts v'') : v' = v'' :=
  run_unique run run' fun one other => step_unique one other

end TokimoSession

import TokimoBus.Directory
import TokimoBus.Enabled
import TokimoBus.Fairness

/-!
What the tasks of the broker get done by themselves. A call with a timeout waits for nobody: whatever
the others do or fail to do, it is over after at most 13 of its own steps. A session that has left its
main loop, or could not write its acknowledgement, goes away, and with it all that the tables
have of it. Both only need that the task in question is scheduled again and again.
-/
namespace TokimoLiveness
open TokimoFrame TokimoOutbound TokimoBroker TokimoSession TokimoIdentity TokimoRegistrations
open TokimoConfinement TokimoEnabled TokimoDirectory TokimoProgress TokimoWire LabelledRuns Fairness
variable {env : Env} {w w' : World} {a : Act} {acts : List Act} {c : CallId} {k : ConnId}
  {s : Session}

def ownOf : Act → Option CallId
  | .cancel _ => none
  | a => taskOf a

def Own (c : CallId) (a : Act) : Prop := ownOf a = some c

instance (c : CallId) : DecidablePred (Own c) := fun a =>
  inferInstanceAs (Decidable (ownOf a = some c))

/-- The future of the call has returned or was dropped; for an app, the task has answered too. -/
def Over (w : World) (c : CallId) : Prop :=
  11 ≤ (w.callPhase c).rank ∧ ∀ k inv, (w.call c).origin = .app k inv → w.callPhase c = .answered

/-- The call has begun, and has a timeout unless it is past all waiting. -/
def Timed (c : CallId) (w : World) : Prop :=
  w.callPhase c ≠ .unused ∧ ((w.call c).timeout.isZero = true → 11 ≤ (w.callPhase c).rank)

theorem timed_stable (c : CallId) : Stable (Step env) World.init (Timed c) := by
  intro v a v' _ step now
  refine ⟨begun_keeps step now.1, ?_⟩
  rw [call_keeps step now.1]
  intro zero
  have late := now.2 zero
  rcases step_call_rank step c with same | up
  · rwa [same]
  · omega

theorem own_climbs (own : Own c a) (step : Step env w a w') :
    (w.callPhase c).rank < (w'.callPhase c).rank := by
  cases step with
  | localHit here | localMiss here | localAdmit here | localRefuse here | localReturn here
  | localTimeout here | lookupNone here | permit here | refuse here | routeNone here | route here
  | number here | register here | send here | sendClosed here | complete here | senderGone here
  | elapse here | expire here | answer _ here | answerClosed _ here =>
    cases own
    simp [World.setCallPhase, here, CallPhase.rank]
  | _ => cases own

theorem enables (step : Step env w a w') (own : ownOf a = some c) : Enabled (Step env) (Own c) w :=
  ⟨a, w', own, step⟩

theorem returns_enabled (timed : Timed c w) (early : (w.callPhase c).rank < 11) :
    Enabled (Step env) (Own c) w := by
  have begun := timed.1
  have nonzero : (w.call c).timeout.isZero = false := by
    cases zero : (w.call c).timeout.isZero with
    | false => rfl
    | true => exact absurd (timed.2 zero) (Nat.not_le.mpr early)
  cases here : w.callPhase c with
  | unused => exact absurd here begun
  | start =>
    cases found : w.broker.localServices (w.call c).service with
    | some h => exact enables (Step.localHit here found) rfl
    | none => exact enables (Step.localMiss here found) rfl
  | localGate h =>
    cases verdict : localGate (w.broker.localServiceMethods (w.call c).service) (w.call c).service
        (w.call c).method (w.call c).caller with
    | ok _ => exact enables (Step.localAdmit here rfl verdict) rfl
    | error e => exact enables (Step.localRefuse here rfl verdict) rfl
  | localRun h => exact enables (Step.localTimeout here nonzero) rfl
  | lookup =>
    cases found : w.broker.registry.get (w.call c).service with
    | none => exact enables (Step.lookupNone here found) rfl
    | some e =>
      cases verdict : remoteGate e (w.call c).service (w.call c).method (w.call c).caller with
      | ok _ => exact enables (Step.permit here found verdict) rfl
      | error err => exact enables (Step.refuse here found verdict) rfl
  | route e =>
    cases found : w.broker.sessions ((w.call c).service, e.generation) with
    | none => exact enables (Step.routeNone here found) rfl
    | some h => exact enables (Step.route here found) rfl
  | number e j => exact enables (Step.number here) rfl
  | register e j r => exact enables (Step.register here) rfl
  | send e j r =>
    by_cases alive : (w.out e.tx).IsOpen
    · exact enables (Step.send here alive) rfl
    · exact enables (Step.sendClosed here alive) rfl
  | await j r => exact enables (Step.elapse here nonzero) rfl
  | expire j r => exact enables (Step.expire here) rfl
  | done | caching | cancelled | answered =>
    rw [here] at early
    simp [CallPhase.rank] at early

theorem call_works (c : CallId) : Works (Step env) World.init (Own c) (Timed c) (fun w => Over w c)
    (fun w => (w.callPhase c).rank) 13 where
  keeps := timed_stable c
  grows := by
    intro v a v' step
    rcases step_call_rank step c with same | up
    · rw [same]
    · exact Nat.le_of_lt up
  climbs := own_climbs
  bounded := by
    intro w
    cases w.callPhase c <;> simp [CallPhase.rank]
  goes := by
    intro w reach timed
    by_cases early : (w.callPhase c).rank < 11
    · exact Or.inr (returns_enabled timed early)
    · have returned : 11 ≤ (w.callPhase c).rank := Nat.le_of_not_lt early
      cases origin : (w.call c).origin with
      | host | probe =>
        refine Or.inl ⟨returned, fun k inv app => ?_⟩
        rw [origin] at app
        cases app
      | app k inv =>
        have kept := app_kept reach origin
        cases here : w.callPhase c with
        | answered => exact Or.inl ⟨returned, fun _ _ _ => here⟩
        | done result =>
          by_cases alive : (w.out k).IsOpen
          · exact Or.inr (enables (Step.answer origin here alive) rfl)
          · exact Or.inr (enables (Step.answerClosed origin here alive) rfl)
        | cancelled | caching =>
          rw [here] at kept
          cases kept
        | _ =>
          rw [here] at returned
          simp [CallPhase.rank] at returned

/-- A call that is scheduled is over in the end, if it has a timeout; and no call takes more than
    13 steps. -/
theorem call_ends (e : Execution (Step env) World.init) (fair : e.Fair (Own c)) {n : Nat}
    (timed : Timed c (e.state n)) : (∃ m, n ≤ m ∧ Over (e.state m) c) ∧
      ∀ acts w, BrokerRun env acts w → acts.countP (fun a => Own c a) ≤ 13 := by
  refine ⟨(call_works c).reaches e fair timed, fun acts w run => ?_⟩
  have works := @call_works env c
  have few := works.few_steps run
  have top := works.bounded w
  omega

theorem over_idle (past : Over w c) : ¬ Enabled (Step env) (Own c) w := by
  rintro ⟨a, w', own, step⟩
  have late := past.1
  cases step with
  | localHit here | localMiss here | localAdmit here | localRefuse here | localReturn here
  | localTimeout here | lookupNone here | permit here | refuse here | routeNone here | route here
  | number here | register here | send here | sendClosed here | complete here | senderGone here
  | elapse here | expire here =>
    cases own
    simp [here, CallPhase.rank] at late
  | answer app here | answerClosed app here =>
    cases own
    rw [past.2 _ _ app] at here
    cases here
  | _ => cases own

theorem play_ends : ∃ e : Execution (Step standardEnv) World.init, e.Fair (Own 1) ∧
    Timed 1 (e.state (videoActs.length + 1)) ∧
    ∃ m, videoActs.length + 1 ≤ m ∧ Over (e.state m) 1 := by
  have first := video_run.snoc
    (@Step.call standardEnv videoWorld 1 (hostCall "video" "play" (Duration.fromSecs 60)) rfl rfl)
  have queued := (@begun_registers standardEnv videoWorld 0 1 videoSession
    (hostCall "video" "play" (Duration.fromSecs 60)) video_connected rfl rfl rfl).snoc
      (send_queues video_connected.alive)
  have rest := run_append queued
    (@response_completes _ _ 0 1 videoSession ⟨1, .ok []⟩ rfl rfl rfl)
  obtain ⟨e, here, _, after⟩ := run_execution first rest
  rw [List.length_append, List.length_singleton] at here after
  have fair : e.Fair (Own 1) := by
    refine rest_fair e after (over_idle ⟨?_, fun _ _ app => by cases app⟩)
    simp [World.answered, World.setCallPhase, CallPhase.rank]
  have timed : Timed 1 (e.state (videoActs.length + 1)) := by
    rw [here]
    exact ⟨by simp [World.begin, World.setCallPhase], fun zero => by cases zero⟩
  exact ⟨e, fair, timed, (call_ends e fair timed).1⟩

def leaving : Phase → Bool
  | .live _ .rollback | .live _ .detach | .live _ .check | .live _ .forget => true
  | .live _ .removeIf | .live _ .abort | .live _ .done => true
  | _ => false

def Leaving (k : ConnId) (w : World) : Prop := leaving (w.phase k) = true

def Ends (k : ConnId) (a : Act) : Prop := ends a = some k

theorem leaving_stable (k : ConnId) : Stable (Step env) World.init (Leaving k) := by
  intro v a v' _ step now
  have moved : ∀ {j : ConnId} {p q : Phase}, v.phase j = q →
      (leaving q = true → leaving p = true) → leaving (Function.update v.phase j p k) = true := by
    intro j p q here same
    exact moved_on (P := fun p => leaving p = true) here same now
  cases step with
  | check here =>
    refine moved here ?_
    split <;> simp [leaving]
  | hello here | consume here | target here | accept here | noHello here | reject here
  | rejectBroken here | clientId here | generate here | publish here | ack here | ackBroken here
  | rollback here | attach here | probe here | fanout here | deliver here | undelivered here
  | fanned here | hangup here | detach here | forget here | removeIf here | abort here =>
    exact moved here (by simp [leaving])
  | _ => exact now

theorem ends_enabled (step : Step env w a w') (own : ends a = some k) :
    Enabled (Step env) (Ends k) w :=
  ⟨a, w', own, step⟩

theorem leaving_works (k : ConnId) : Works (Step env) World.init (Ends k) (Leaving k)
    (fun w => ∃ s, w.phase k = .live s .done) (fun w => (w.phase k).rank) 15 where
  keeps := leaving_stable k
  grows := fun step => (step_phase step k).1
  climbs := by
    intro v a v' own step
    cases step with
    | rollback here | detach here | forget here | removeIf here | abort here =>
      cases own
      simp [World.setPhase, here, Phase.rank, Stage.rank]
    | check here =>
      cases own
      simp only [World.setPhase, here, Function.update_self]
      split <;> simp [Phase.rank, Stage.rank]
    | _ => cases own
  bounded := by
    intro w
    cases w.phase k with
    | live s stage => cases stage <;> simp [Phase.rank, Stage.rank]
    | _ => simp [Phase.rank]
  goes := by
    intro w _ now
    unfold Leaving at now
    cases here : w.phase k with
    | live s stage =>
      rw [here] at now
      cases stage with
      | rollback => exact Or.inr (ends_enabled (Step.rollback here) rfl)
      | detach => exact Or.inr (ends_enabled (Step.detach here) rfl)
      | check => exact Or.inr (ends_enabled (Step.check here rfl) rfl)
      | forget => exact Or.inr (ends_enabled (Step.forget here) rfl)
      | removeIf => exact Or.inr (ends_enabled (Step.removeIf here) rfl)
      | abort => exact Or.inr (ends_enabled (Step.abort here) rfl)
      | done => exact Or.inl ⟨s, rfl⟩
      | _ => cases now
    | _ =>
      rw [here] at now
      cases now

/-- No table has anything of the session. -/
structure Gone (w : World) (k : ConnId) : Prop where
  entry : ∀ service e, w.broker.registry.get service = some e → e.tx ≠ k
  handle : ∀ key, w.broker.sessions key ≠ some ⟨k⟩

theorem done_gone (reach : BrokerReachable env w) (here : w.phase k = .live s .done) : Gone w k where
  entry := by
    rintro service e found rfl
    have inside := entry_listed reach found
    rw [here] at inside
    cases inside
  handle := by
    intro key found
    obtain ⟨s', stage, phase, inside, _⟩ := key_attached reach found
    rw [here] at phase
    cases phase
    cases inside

theorem done_stable (k : ConnId) (s : Session) :
    Stable (Step env) World.init (fun w => w.phase k = .live s .done) := by
  intro v a v' _ step now
  have moved : ∀ {j : ConnId} {p q : Phase}, v.phase j = q →
      (q = .live s .done → p = .live s .done) → Function.update v.phase j p k = .live s .done := by
    intro j p q here same
    exact moved_on (P := fun p => p = .live s .done) here same now
  cases step with
  | hello here | consume here | target here | check here | accept here | noHello here | reject here
  | rejectBroken here | clientId here | generate here | publish here | ack here | ackBroken here
  | rollback here | attach here | probe here | fanout here | deliver here | undelivered here
  | fanned here | hangup here | detach here | forget here | removeIf here | abort here =>
    exact moved here (by simp)
  | _ => exact now

/-- A session on its way out that is scheduled is gone in the end, and stays away. -/
theorem session_goes (e : Execution (Step env) World.init) (fair : e.Fair (Ends k)) {n : Nat}
    (out : Leaving k (e.state n)) : ∃ m, n ≤ m ∧ ∀ l, m ≤ l → Gone (e.state l) k := by
  obtain ⟨m, later, s, here⟩ := (leaving_works k).reaches e fair out
  exact ⟨m, later, fun l after =>
    done_gone (e.reachable l) (e.stays (done_stable k s) after here)⟩

theorem done_idle (here : w.phase k = .live s .done) : ¬ Enabled (Step env) (Ends k) w := by
  rintro ⟨a, w', own, step⟩
  cases step with
  | rollback there | detach there | check there | forget there | removeIf there | abort there =>
    cases own
    rw [here] at there
    cases there
  | _ => cases own

theorem video_goes : ∃ e : Execution (Step standardEnv) World.init, e.Fair (Ends 0) ∧
    Leaving 0 (e.state (videoActs.length + 1)) ∧
    ∃ m, videoActs.length + 1 ≤ m ∧ ∀ l, m ≤ l → Gone (e.state l) 0 := by
  have run := (run_append video_run (session_ends video_connected)).snoc
    (Step.abort (setPhase_here _ _ _))
  obtain ⟨v, v', first, step, last⟩ := run_at (i := videoActs.length + 1) (a := .detach 0) run rfl
  have rest := run_cons step last
  obtain ⟨e, here, _, after⟩ := run_execution first rest
  have length : (List.take (videoActs.length + 1)
      (videoActs ++ endActs 0 ++ [Act.abort 0])).length = videoActs.length + 1 := rfl
  rw [length] at here after
  have fair : e.Fair (Ends 0) := rest_fair e after (done_idle (setPhase_here _ _ _))
  have out : Leaving 0 (e.state (videoActs.length + 1)) := by
    rw [here]
    cases step with
    | detach there => simp [Leaving, there, leaving]
  exact ⟨e, fair, out, session_goes e fair out⟩

end TokimoLiveness

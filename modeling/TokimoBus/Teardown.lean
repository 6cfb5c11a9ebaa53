import TokimoBus.Correlation

/-!
Who keeps a session's pending table alive. `serve` holds it until it returns, the
sessions table until `detach_session`, and every call that was routed to the session
until the call ends: also while the call waits for a reply that can no longer come.
-/
namespace TokimoTeardown
open TokimoFrame TokimoOutbound TokimoBroker TokimoSession TokimoCalls TokimoIdentity
open TokimoCorrelation TokimoProgress TokimoWire LabelledRuns
open WrappingCounter RequestTable
variable {env : Env} {w w' : World} {a : Act} {acts : List Act} {c : CallId} {k : ConnId}

theorem holdsTable_rank {p : Phase} (holds : p.holdsTable = true) : p.rank ≤ 14 := by
  cases p with
  | live s stage => cases stage <;> simp_all [Phase.holdsTable, Phase.rank, Stage.rank]
  | _ => simp [Phase.holdsTable] at holds

structure Held (w : World) : Prop where
  attached : ∀ key k, w.broker.sessions key = some ⟨k⟩ →
    8 ≤ (w.phase k).rank ∧ (w.phase k).rank ≤ 10
  handle : ∀ c k, (w.callPhase c).handle = some k → 8 ≤ (w.phase k).rank

theorem moved_within {f : ConnId → Phase} {j k : ConnId} {p q : Phase} (here : f j = q)
    (within : 8 ≤ q.rank → q.rank ≤ 10 → p.rank ≤ 10) (low : 8 ≤ (f k).rank)
    (high : (f k).rank ≤ 10) : (Function.update f j p k).rank ≤ 10 := by
  by_cases eq : k = j
  · subst eq
    rw [Function.update_self]
    rw [here] at low high
    exact within low high
  · rwa [Function.update_of_ne eq]

theorem step_within (h : Step env w a w') (low : 8 ≤ (w.phase k).rank)
    (high : (w.phase k).rank ≤ 10) : (w'.phase k).rank ≤ 10 ∨ a = .detach k := by
  cases h with
  | @detach j s here =>
    by_cases eq : k = j
    · exact Or.inr (by rw [eq])
    · refine Or.inl ?_
      simpa [World.setPhase, World.withBroker, eq] using high
  | hello here =>
    refine Or.inl (moved_within here ?_ low high)
    simp [Phase.rank]
  | target here =>
    refine Or.inl (moved_within here ?_ low high)
    unfold targetStage
    split <;> simp [Phase.rank, Stage.rank]
  | consume here | accept here | noHello here | reject here | rejectBroken here
  | clientId here | generate here | publish here | ack here | ackBroken here | rollback here
  | attach here | probe here | fanout here | deliver here | undelivered here
  | fanned here | hangup here | check here | forget here | removeIf here | abort here =>
    refine Or.inl (moved_within here ?_ low high)
    simp [Phase.rank, Stage.rank]
  | _ => exact Or.inl high

theorem detach_removes (h : Step env w (.detach k) w') {s : Session}
    (session : w.session k = some s) : w'.broker.sessions (s.service, s.generation) = none := by
  cases h with
  | detach here =>
    have same := session_of_phase here
    rw [session] at same
    cases same
    simp [World.setPhase, World.withBroker, Broker.removeSession]

theorem attach_moves (h : Step env w (.attach k) w') : (w'.phase k).rank = 8 := by
  cases h with
  | attach here => simp [World.setPhase, Phase.rank, Stage.rank]

theorem held_step : Stable (Step env) World.init Held := by
  rintro w a w' reach h ⟨attached, handle⟩
  constructor
  · intro key k now
    rcases sessions_step h now with old | ⟨s, _, rfl, _⟩
    · obtain ⟨low, high⟩ := attached key k old
      refine ⟨phase_rank_stable k 8 w a w' reach h low, ?_⟩
      rcases step_within h low high with within | rfl
      · exact within
      · obtain ⟨s, session, rfl⟩ := (named reach).attached key ⟨k⟩ old
        rw [detach_removes h session] at now
        cases now
    · have moved : (w'.phase k).rank = 8 := attach_moves h
      exact ⟨Nat.le_of_eq moved.symm, by omega⟩
  · intro c k now
    refine phase_rank_stable k 8 w a w' reach h ?_
    rcases (step_gains h c).handle k now with old | rfl
    · exact handle c k old
    · cases h with
      | route _ found => exact (attached _ k found).1

theorem held (reach : BrokerReachable env w) : Held w := by
  refine reachable_invariant ⟨?_, ?_⟩ held_step reach
  · intro key k now
    cases now
  · intro c k now
    cases now

def Dead (k : ConnId) (w : World) : Prop := 15 ≤ (w.phase k).rank ∧ ¬ w.TableOwned k

theorem dead_stable (k : ConnId) : Stable (Step env) World.init (Dead k) := by
  rintro w a w' reach h ⟨past, gone⟩
  have past' := phase_rank_stable k 15 w a w' reach h past
  refine ⟨past', ?_⟩
  rintro (holds | ⟨key, found⟩ | ⟨c, handle⟩)
  · have := holdsTable_rank holds
    omega
  · rcases sessions_step h found with old | ⟨s, here, _⟩
    · exact gone (Or.inr (Or.inl ⟨key, old⟩))
    · simp [here, Phase.rank, Stage.rank] at past
  · rcases (step_gains h c).handle k handle with old | rfl
    · exact gone (Or.inr (Or.inr ⟨c, old⟩))
    · cases h with
      | route _ found => exact gone (Or.inr (Or.inl ⟨_, found⟩))

def waits : CallPhase → Bool
  | .await _ _ => true
  | .expire _ _ => true
  | .cancelled => true
  | _ => false

theorem sent_rank (run : BrokerRun env acts w) {inv : Invoke} (mem : Act.send c k inv ∈ acts) :
    9 ≤ (w.callPhase c).rank := by
  obtain ⟨i, here⟩ := List.mem_iff_getElem?.mp mem
  obtain ⟨v, v', before, one, after⟩ := run_at run here
  refine stable_run (p := fun v => 9 ≤ (v.callPhase c).rank) (rank_stable c 9)
    (reachable_step ⟨_, before⟩ one) after ?_
  cases one with
  | send => simp [World.setCallPhase, CallPhase.rank]

theorem waiting_step (h : Step env w a w') (now : waits (w.callPhase c) = true) :
    waits (w'.callPhase c) = true ∨ (∃ resp, a = .complete c resp) ∨ a = .senderGone c ∨
      ∃ k r, a = .expire c k r := by
  have other : ∀ {d : CallId} {p q : CallPhase}, w.callPhase d = q → waits q = false →
      waits (Function.update w.callPhase d p c) = true := by
    intro d p q here idle
    exact moved_on (P := fun p => waits p = true) here (by simp [idle]) now
  have moved : ∀ {d : CallId} {p : CallPhase}, waits p = true →
      waits (Function.update w.callPhase d p c) = true := by
    intro d p still
    exact moved_on (P := fun p => waits p = true) rfl (fun _ => still) now
  cases h with
  | @complete d k r resp here =>
    by_cases eq : c = d
    · exact Or.inr (Or.inl ⟨resp, by rw [eq]⟩)
    · exact Or.inl (by simpa [World.setCallPhase, eq] using now)
  | @senderGone d k r here =>
    by_cases eq : c = d
    · exact Or.inr (Or.inr (Or.inl (by rw [eq])))
    · exact Or.inl (by simpa [World.setCallPhase, eq] using now)
  | @expire d k r here =>
    by_cases eq : c = d
    · exact Or.inr (Or.inr (Or.inr ⟨k, r, by rw [eq]⟩))
    · exact Or.inl (by simpa [World.setCallPhase, World.setPending, eq] using now)
  | send | elapse | cancelStart | cancelLocal | cancelAwait => exact Or.inl (moved rfl)
  | spawn _ here | probe _ here | call here | localHit here | localMiss here | localAdmit here
  | localRefuse here | localReturn here | localTimeout here | lookupNone here | permit here
  | refuse here | routeNone here | route here | number here | register here | sendClosed here
  | answer _ here | answerClosed _ here | probeFail _ here | cache _ here | probeCheck _ here =>
    exact Or.inl (other here rfl)
  | _ => exact Or.inl now

/-- The condition under which a teardown leaves nobody waiting. `serve` finishes only when no
    call that waits for a reply of this session is listed while some call holds the handle, and
    no listed call queues its Invoke after that. -/
def Spared (w : World) : Act → Prop
  | .abort k => ∀ r c d, w.pendingOut k r = some c → waits (w.callPhase c) = true →
      (w.callPhase d).handle ≠ some k
  | .send c k _ => (w.phase k).holdsTable = false → ∀ r, w.pendingOut k r ≠ some c
  | _ => True

/-- A listed call whose Invoke was queued waits under a table that `serve` holds, unless the
    table is gone. -/
def Covered (acts : List Act) (w : World) : Prop :=
  ∀ c k inv r, .send c k inv ∈ acts → w.pendingOut k r = some c →
    Dead k w ∨ waits (w.callPhase c) = true ∧ (w.phase k).holdsTable = true

theorem number_handle {r : UInt64} (h : Step env w (.number c k r) w') :
    (w.callPhase c).handle = some k := by
  cases h with
  | number here => simp [here, CallPhase.handle]

theorem sent_routed (run : BrokerRun env acts w) (few : taken generateTakes acts ≤ 2 ^ 64)
    {inv : Invoke} (mem : Act.send c k inv ∈ acts) : 8 ≤ (w.phase k).rank := by
  have numbered := mem_of_numbered (sent_numbered run few mem)
  obtain ⟨i, here⟩ := List.mem_iff_getElem?.mp numbered
  obtain ⟨v, v', before, one, after⟩ := run_at run here
  refine stable_run (p := fun v => 8 ≤ (v.phase k).rank) (phase_rank_stable k 8) ⟨_, before⟩
    (run_cons one after) ?_
  exact (held ⟨_, before⟩).handle c k (number_handle one)

/-- `serve` gives up the pending table of an attached session only in its last step. -/
theorem step_holds (h : Step env w a w') (low : 8 ≤ (w.phase k).rank)
    (holds : (w.phase k).holdsTable = true) :
    (w'.phase k).holdsTable = true ∨ a = .abort k ∧ ∃ s, w.phase k = .live s .abort := by
  have other : ∀ {j : ConnId} {p q : Phase}, w.phase j = q →
      (8 ≤ q.rank → q.holdsTable = true → p.holdsTable = true) →
      (Function.update w.phase j p k).holdsTable = true := by
    intro j p q here same
    rcases moved_or (c := k) here with kept | ⟨rfl, was⟩
    · rwa [kept]
    · rw [Function.update_self]
      rw [was] at low holds
      exact same low holds
  cases h with
  | @abort j s here =>
    by_cases eq : k = j
    · subst eq
      exact Or.inr ⟨rfl, s, here⟩
    · exact Or.inl (by simpa [World.setPhase, World.setOut, eq] using holds)
  | hello here => exact Or.inl (other here (by simp [Phase.rank]))
  | target here =>
    refine Or.inl (other here ?_)
    unfold targetStage
    split <;> simp [Phase.holdsTable]
  | check here =>
    refine Or.inl (other here ?_)
    split <;> simp [Phase.holdsTable]
  | consume here | accept here | noHello here | reject here | rejectBroken here
  | clientId here | generate here | publish here | ack here | ackBroken here | rollback here
  | attach here | probe here | fanout here | deliver here | undelivered here
  | fanned here | hangup here | detach here | forget here | removeIf here =>
    exact Or.inl (other here (by simp [Phase.rank, Stage.rank, Phase.holdsTable]))
  | _ => exact Or.inl holds

theorem abort_kills (reach : BrokerReachable env w) (h : Step env w (.abort k) w')
    (unheld : ∀ d, (w.callPhase d).handle ≠ some k) : Dead k w' := by
  have tables := held reach
  cases h with
  | @abort _ s here =>
    refine ⟨by simp [World.setPhase, Phase.rank, Stage.rank], ?_⟩
    rintro (holds | ⟨key, found⟩ | ⟨d, handle⟩)
    · simp [World.setPhase, Phase.holdsTable] at holds
    · have high := (tables.attached key k found).2
      simp [here, Phase.rank, Stage.rank] at high
    · exact unheld d handle

theorem send_listed {inv : Invoke} (h : Step env w (.send c k inv) w') :
    waits (w'.callPhase c) = true ∧ w'.phase = w.phase ∧ w'.pendingOut = w.pendingOut := by
  cases h with
  | send => exact ⟨by simp [World.setCallPhase, waits], rfl, rfl⟩

theorem covered_waits (run : BrokerRun env acts w)
    (h : Step env w a w') {inv : Invoke} {r : UInt64} (sent : Act.send c k inv ∈ acts)
    (listed : w.pendingOut k r = some c) (listed' : w'.pendingOut k r = some c)
    (now : waits (w.callPhase c) = true) (holds : (w.phase k).holdsTable = true) :
    waits (w'.callPhase c) = true := by
  rcases waiting_step h now with still | ⟨resp, rfl⟩ | rfl | ⟨k', r', rfl⟩
  · exact still
  · obtain ⟨_, _, _, value, _⟩ := complete_awaits h
    obtain ⟨_, mem, _, woken⟩ := reply_history (calls env) run value
    exact absurd listed ((woken_unlisted (calls env) run mem woken).2 k r)
  · cases h with
    | senderGone _ _ gone => exact absurd ⟨k, r, listed, Or.inl holds⟩ gone
  · cases h with
    | expire here =>
      have own := ticket_numbered (calls env) run (c := c) (k := k') (r := r')
        (by simp [calls, here, ticket])
      obtain ⟨rfl, rfl⟩ := number_once (calls env) run own (slot_numbered (calls env) run listed)
      simp [World.setCallPhase, World.setPending] at listed'

theorem covered_step (run : BrokerRun env acts w) (few : taken generateTakes acts ≤ 2 ^ 64)
    (h : Step env w a w') (spared : Spared w a) (covered : Covered acts w) :
    Covered (acts ++ [a]) w' := by
  intro c k inv r mem listed'
  rcases List.mem_append.mp mem with sent | new
  · have listed : w.pendingOut k r = some c := by
      rcases step_pending h listed' with old | rfl
      · exact old
      · have high := sent_rank run sent
        cases h with
        | register here => simp [here, CallPhase.rank] at high
    rcases covered c k inv r sent listed with dead | ⟨now, holds⟩
    · exact Or.inl (dead_stable k w a w' ⟨_, run⟩ h dead)
    · rcases step_holds h (sent_routed run few sent) holds with still | ⟨rfl, s, _⟩
      · exact Or.inr ⟨covered_waits run h sent listed listed' now holds, still⟩
      · exact Or.inl (abort_kills ⟨_, run⟩ h (fun d => spared r c d listed now))
  · obtain rfl := List.mem_singleton.mp new
    obtain ⟨now, phase, pending⟩ := send_listed h
    rw [pending] at listed'
    cases holds : (w.phase k).holdsTable with
    | true => exact Or.inr ⟨now, by rw [phase, holds]⟩
    | false => exact absurd listed' (spared holds r)

/-- Every call that queued its Invoke on a session that has finished its teardown has had its
    reply sender used or dropped. -/
def NoCallOutlives (acts : List Act) (w : World) : Prop :=
  ∀ k s c inv, w.phase k = .live s .done → .send c k inv ∈ acts →
    (∃ resp, .response k resp (some c) ∈ acts) ∨ ¬ w.SenderAlive c

theorem no_call_outlives (run : Run (Guarded (Step env) Spared) World.init acts w)
    (few : taken generateTakes acts < 2 ^ 64) : NoCallOutlives acts w := by
  have plain := guarded_run run
  have covered : taken generateTakes acts ≤ 2 ^ 64 → Covered acts w := by
    refine run_history (p := fun acts w => taken generateTakes acts ≤ 2 ^ 64 → Covered acts w)
      ?_ ?_ run
    · intro _ c k inv r mem
      cases mem
    · intro acts w a w' before step ih few
      rw [taken_append] at few
      have short : taken generateTakes acts ≤ 2 ^ 64 := by omega
      exact covered_step (guarded_run before) short step.1 step.2 (ih short)
  intro k s c inv done sent
  refine Or.inr ?_
  rintro ⟨j, r, listed, owned⟩
  obtain ⟨rfl, _⟩ := number_once (calls env) plain (slot_numbered (calls env) plain listed)
    (sent_numbered plain (Nat.le_of_lt few) sent)
  rcases covered (Nat.le_of_lt few) c j inv r sent listed with dead | ⟨_, holds⟩
  · exact dead.2 owned
  · simp [done, Phase.holdsTable] at holds

/-- The app hangs up while a host call without a timeout waits for its reply. -/
def strandedActs : List Act :=
  videoActs ++ queueActs 1 playCall videoSession 0 1 ++ endActs 0 ++ [Act.abort 0]

theorem stranded_run : ∃ w, BrokerRun standardEnv strandedActs w ∧
    w.phase 0 = .live videoSession .done ∧ w.pendingOut 0 1 = some 1 ∧
    w.callPhase 1 = .await 0 1 := by
  have waiting : Connected (World.queued videoWorld 1 playCall 0) 0 videoSession :=
    ⟨rfl, rfl, rfl, by decide⟩
  have run := run_append play_queued (session_ends waiting)
  exact ⟨_, run.snoc (Step.abort (setPhase_here _ _ _)), rfl, rfl, rfl⟩

theorem stranded_call_outlives :
    ¬ ∀ acts w, BrokerRun standardEnv acts w → NoCallOutlives acts w := by
  intro claim
  obtain ⟨w, run, done, listed, waiting⟩ := stranded_run
  rcases claim _ w run 0 videoSession 1 (playCall.invoke 1) done
    (by simp [strandedActs, queueActs]) with ⟨resp, mem⟩ | gone
  · simp [strandedActs, videoActs, issueActs, connectActs, queueActs, registerActs, endActs] at mem
  · exact gone ⟨0, 1, listed, Or.inr (Or.inr ⟨1, by rw [waiting]; rfl⟩)⟩

def answeredActs : List Act :=
  videoActs ++ registerActs 1 playCall videoSession 0 1 ++ [Act.send 1 0 (playCall.invoke 1)] ++
    ([Act.response 0 ⟨1, .ok []⟩ (some 1), .complete 1 ⟨1, .ok []⟩] ++ endActs 0) ++ [Act.abort 0]

theorem answered_run : ∃ w, Run (Guarded (Step standardEnv) Spared) World.init answeredActs w ∧
    w.phase 0 = .live videoSession .done := by
  have listing : Run (Step standardEnv) videoWorld (registerActs 1 playCall videoSession 0 1)
      (World.listing videoWorld 1 playCall videoSession 0) :=
    call_registers video_connected rfl rfl rfl rfl rfl
  have start := run_guarded (g := Spared) (run_append video_run listing)
    (by simp [videoActs, issueActs, connectActs, registerActs, Spared])
  have sent : Guarded (Step standardEnv) Spared (World.listing videoWorld 1 playCall videoSession 0)
      (.send 1 0 (playCall.invoke 1)) (World.queued videoWorld 1 playCall 0) := by
    refine ⟨send_queues (by decide), ?_⟩
    intro dropped
    cases dropped
  have answer := @response_completes standardEnv (World.queued videoWorld 1 playCall 0) 0 1
    videoSession ⟨1, .ok []⟩ rfl rfl rfl
  have ended := run_append answer (session_ends (k := 0) (s := videoSession)
    ⟨rfl, rfl, rfl, by decide⟩)
  have rest := run_guarded (g := Spared) ended (by simp [endActs, Spared])
  have before := run_append (start.snoc sent) rest
  have spared : Spared (World.ending (World.answered (World.queued videoWorld 1 playCall 0) 0 1
      ⟨1, .ok []⟩) 0 videoSession) (.abort 0) := by
    intro r c d listed
    have empty : (World.answered (World.queued videoWorld 1 playCall 0) 0 1 ⟨1, .ok []⟩).pendingOut
        0 r = none := by
      by_cases first : r = 1
      · subst first
        rfl
      · simp [World.answered, World.queued, World.setCallPhase, World.wake, World.setPending,
          World.begin, World.push, World.setOut, first]
        have next : videoWorld.nextReqId 0 = 1 := rfl
        rw [next, Function.update_of_ne first]
        rfl
    cases empty.symm.trans listed
  exact ⟨_, before.snoc ⟨Step.abort (setPhase_here _ _ _), spared⟩, rfl⟩

theorem answered_run_spared : ∃ w, w.phase 0 = .live videoSession .done ∧
    NoCallOutlives answeredActs w := by
  obtain ⟨w, run, done⟩ := answered_run
  exact ⟨w, done, no_call_outlives run (by decide)⟩

end TokimoTeardown

import TokimoBus.Channel
import TokimoBus.Progress
import TokimoBus.ClientTeardown

/-!
The writers of sessions and of clients as instances of one channel. A connection that is
not cut off delivers all that fits, and stays open, exactly when nothing else is queued
on it.
-/
namespace TokimoWriter
open TokimoFrame TokimoOutbound TokimoBroker TokimoSession TokimoClient TokimoChannel
open TokimoProgress TokimoWire LabelledRuns
variable {env : Env} {w w' : World} {a : Act} {acts : List Act} {k : ConnId}
  {encoder : Encoder} {debug : BusFrame → String} {hello : HelloRequest}
  {handlers : String → Option HandlerId} {c c' : Client} {b : ClientAct} {steps : List ClientAct}
  {o o' : Outbound} {x : WriterAct}

theorem writer_spawned (one : WriterStep encoder o x o') : o.writer ≠ .unspawned := by
  intro fresh
  cases one <;> simp_all

def channelActs (k : ConnId) : Act → List ChannelAct
  | .reject j f => if j = k then [.direct f] else []
  | .rejectBroken j cut | .ackBroken j cut => if j = k then [.tear cut] else []
  | .ack j f => if j = k then [.direct f, .spawn] else []
  | .rollback j => if j = k then [.stop] else []
  | .abort j => if j = k then [.abort] else []
  | .writer j x => if j = k then [.writer x] else []
  | a => match queues a with
    | some (j, f) => if j = k then [.push f] else []
    | none => []

theorem unspawned_step : Stable (Step env) World.init fun w =>
    (w.phase k).rank ≤ 6 → (w.out k).writer = .unspawned := by
  intro w a w' reach h fresh early'
  have early : (w.phase k).rank ≤ 6 := Nat.le_trans (step_phase h k).1 early'
  have before := fresh early
  have kept : ∀ {j : ConnId} {o : Outbound}, (k = j → o.writer = (w.out k).writer) →
      (Function.update w.out j o k).writer = .unspawned := by
    intro j o same
    by_cases eq : k = j
    · rw [← before, ← same eq]
      subst eq
      simp
    · rwa [Function.update_of_ne eq]
  have late : ∀ {j : ConnId} {p q : Phase}, w.phase j = q →
      (Function.update w.phase j p k).rank ≤ 6 → 6 < p.rank → k ≠ j := by
    rintro j p q _ early' past rfl
    rw [Function.update_self] at early'
    omega
  cases h with
  | reject | rejectBroken | ackBroken | deliver | send | answer | shutdownSend =>
    exact kept fun eq => by rw [eq]; rfl
  | ack here | rollback here | abort here =>
    refine kept fun eq => absurd eq (late here early' ?_)
    simp [Phase.rank, Stage.rank]
  | writer one =>
    refine kept fun eq => ?_
    subst eq
    exact absurd before (writer_spawned one)
  | _ => exact before

theorem unspawned (reach : BrokerReachable env w) (early : (w.phase k).rank ≤ 6) :
    (w.out k).writer = .unspawned :=
  reachable_invariant (p := fun w => (w.phase k).rank ≤ 6 → (w.out k).writer = .unspawned)
    (fun _ => rfl) unspawned_step reach early

theorem step_channel (reach : BrokerReachable env w) (h : Step env w a w') (k : ConnId) :
    Run (ChannelStep env.toVecNamed) (w.out k) (channelActs k a) (w'.out k) := by
  have moved : ∀ {j : ConnId} {o : Outbound} {xs : List ChannelAct},
      (j = k → Run (ChannelStep env.toVecNamed) (w.out j) xs o) →
      Run (ChannelStep env.toVecNamed) (w.out k) (if j = k then xs else [])
        (Function.update w.out j o k) := by
    intro j o xs run
    by_cases eq : j = k
    · subst eq
      simpa using run rfl
    · rw [if_neg eq, Function.update_of_ne (Ne.symm eq)]
      exact Run.nil
  cases h with
  | reject here fits =>
    refine moved fun _ => run_single (.direct ?_ fits)
    exact unspawned reach (by simp [here, Phase.rank])
  | @ack j s f here ack fits =>
    refine moved fun _ => ?_
    have idle := unspawned (k := j) reach (by simp [here, Phase.rank, Stage.rank])
    exact (run_single (.direct idle fits)).snoc (.spawn idle)
  | rejectBroken | ackBroken => exact moved fun _ => run_single .tear
  | rollback => exact moved fun _ => run_single .stop
  | deliver _ alive | send _ alive | answer _ _ alive | shutdownSend _ alive =>
    exact moved fun _ => run_single (.push alive)
  | abort => exact moved fun _ => run_single .abort
  | writer one => exact moved fun _ => run_single (.writer one)
  | _ => exact Run.nil

def clientChannelActs : ClientAct → List ChannelAct
  | .greet f => [.direct f]
  | .greetBroken cut => [.tear cut]
  | .run => [.spawn]
  | .finish => [.abort]
  | .writer x => [.writer x]
  | b => match b.sends with
    | some f => [.push f]
    | none => []

theorem client_unspawned_step :
    Stable (ClientStep encoder debug) (Client.new hello handlers) fun c =>
      c.runner.rank ≤ 2 → c.out.writer = .unspawned := by
  intro c b c' _ h fresh early'
  have before := fresh (Nat.le_trans (step_runner_rank h) early')
  cases h with
  | writer one => exact absurd before (writer_spawned one)
  | run | finish => simp [Client.setRunner, Runner.rank] at early'
  | _ => exact before

theorem client_unspawned (reach : ClientReachable encoder debug hello handlers c)
    (early : c.runner.rank ≤ 2) : c.out.writer = .unspawned :=
  reachable_invariant (p := fun c => c.runner.rank ≤ 2 → c.out.writer = .unspawned)
    (fun _ => rfl) client_unspawned_step reach early

theorem client_step_channel (reach : ClientReachable encoder debug hello handlers c)
    (h : ClientStep encoder debug c b c') :
    Run (ChannelStep encoder) c.out (clientChannelActs b) c'.out := by
  cases h with
  | greet here fits =>
    exact run_single (.direct (client_unspawned reach (by simp [here, Runner.rank])) fits)
  | run here =>
    exact run_single (.spawn (client_unspawned reach (by simp [here, Runner.rank])))
  | greetBroken => exact run_single .tear
  | finish => exact run_single .abort
  | writer one => exact run_single (.writer one)
  | ping _ alive | reply _ alive | send _ alive | publish _ alive | subscribe _ alive =>
    exact run_single (.push alive)
  | _ => exact Run.nil

theorem closed_stable (k : ConnId) :
    Stable (Step env) World.init fun w => ¬ (w.out k).IsOpen :=
  fun _ _ _ reach step closed => closed_run (step_channel reach step k) closed

theorem client_closed_stable :
    Stable (ClientStep encoder debug) (Client.new hello handlers) fun c => ¬ c.out.IsOpen :=
  fun _ _ _ reach step closed => closed_run (client_step_channel reach step) closed

abbrev brokerChannel (k : ConnId) (acts : List Act) : List ChannelAct :=
  acts.flatMap (channelActs k)

abbrev clientChannel (steps : List ClientAct) : List ChannelAct := steps.flatMap clientChannelActs

theorem broker_channel_run (run : BrokerRun env acts w) (k : ConnId) :
    Run (ChannelStep env.toVecNamed) Outbound.fresh (brokerChannel k acts) (w.out k) :=
  run_map (fun w : World => w.out k) (channelActs k)
    (fun _ _ _ reach step => step_channel reach step k) run

theorem client_channel_run (run : ClientRun encoder debug hello handlers steps c) :
    Run (ChannelStep encoder) Outbound.fresh (clientChannel steps) c.out :=
  run_map Client.out clientChannelActs (fun _ _ _ reach step => client_step_channel reach step) run

/-- A connection that is not cut off delivers the frames that fit, and stays open, exactly when
    all frames fit. -/
theorem delivered_iff_all_fit :
    (∀ acts w k, BrokerRun env acts w → (∀ b ∈ brokerChannel k acts, b.cut = false) →
      Drained (w.out k) →
      (Delivered env.toVecNamed (w.out k) (directed (brokerChannel k acts))
          (pushed (brokerChannel k acts)) ↔
        ∀ f ∈ pushed (brokerChannel k acts), Fits env.toVecNamed f)) ∧
    ∀ steps c, ClientRun encoder debug hello handlers steps c →
      (∀ b ∈ clientChannel steps, b.cut = false) → Drained c.out →
      (Delivered encoder c.out (directed (clientChannel steps)) (pushed (clientChannel steps)) ↔
        ∀ f ∈ pushed (clientChannel steps), Fits encoder f) := by
  constructor
  · intro acts w k run uncut drained
    exact delivered_iff (broker_channel_run run k) uncut drained
  · intro steps c run uncut drained
    exact delivered_iff (client_channel_run run) uncut drained

def uploadCall (payload : Bytes) : Call :=
  ⟨.host, "video", "play", payload, CallerCtx.default, Duration.zero⟩

def uploadActs (payload : Bytes) (x : BusFrame → WriterAct) : List Act :=
  videoActs ++ queueActs 1 (uploadCall payload) videoSession 0 1 ++
    [Act.writer 0 (.recv (.invoke ((uploadCall payload).invoke 1))),
      .writer 0 (x (.invoke ((uploadCall payload).invoke 1)))]

theorem upload_received (payload : Bytes) :
    Run (Step standardEnv) World.init
      (videoActs ++ TokimoProgress.queueActs 1 (uploadCall payload) videoSession 0 1 ++
        [.writer 0 (.recv (.invoke ((uploadCall payload).invoke 1)))])
      ((World.queued videoWorld 1 (uploadCall payload) 0).setOut 0
        ⟨[], .writing (.invoke ((uploadCall payload).invoke 1)), false, [ackOf standardEnv videoSession],
          []⟩) := by
  have queued : Run (Step standardEnv) videoWorld
      (TokimoProgress.queueActs 1 (uploadCall payload) videoSession 0 1) _ :=
    call_queues video_connected rfl rfl rfl rfl rfl
  have run := run_append video_run queued
  exact run.snoc (Step.writer (.recv rfl rfl))

theorem upload_rejected {payload : Bytes} (large : maxFrameBytes.toNat < payload.length) :
    ∃ e w, BrokerRun standardEnv (uploadActs payload fun f => .rejected f e) w ∧
      (w.out 0).writer = .ended ∧ w.phase 0 = .live videoSession .read ∧
      w.broker.registry.get "video" = some (videoSession.entry 0) := by
  have unfit : ¬ Fits toVecNamed (.invoke ((uploadCall payload).invoke 1)) :=
    @oversized_of_payload _ "payload" payload
      (by simp [frameFields, Call.invoke, uploadCall]) large
  cases encoded : writeFrame toVecNamed (.invoke ((uploadCall payload).invoke 1)) with
  | ok bytes => exact absurd (fits_iff_written.mpr ⟨bytes, encoded⟩) unfit
  | error e =>
    have run := (upload_received payload).snoc (@Step.writer _ _ 0 _ _ (.rejected rfl encoded))
    rw [List.append_assoc] at run
    exact ⟨e, _, run, rfl, rfl, rfl⟩

theorem oversized_payload : ∃ payload : Bytes, maxFrameBytes.toNat < payload.length := by
  refine ⟨List.replicate (maxFrameBytes.toNat + 1) 0, ?_⟩
  rw [List.length_replicate]
  exact Nat.lt_succ_self _

/-- One payload of more than 32 MiB, and a session that stays registered takes no more frames. -/
theorem oversized_frame_closes : ∃ acts w, BrokerRun standardEnv acts w ∧
    (∀ b ∈ brokerChannel 0 acts, b.cut = false) ∧ Drained (w.out 0) ∧ w.phase 0 = .live videoSession .read ∧
    w.broker.registry.get "video" = some (videoSession.entry 0) ∧
    ¬ Delivered standardEnv.toVecNamed (w.out 0) (directed (brokerChannel 0 acts))
      (pushed (brokerChannel 0 acts)) := by
  obtain ⟨payload, large⟩ := oversized_payload
  obtain ⟨e, w, run, ended, phase, entry⟩ := upload_rejected large
  refine ⟨_, w, run, ?_, Or.inr ended, phase, entry, fun delivered => delivered.2 ended⟩
  simp [brokerChannel, channelActs, queues, uploadActs, videoActs, issueActs, connectActs,
    TokimoProgress.queueActs, TokimoProgress.registerActs, ChannelAct.cut]

theorem upload_written : ∃ w, BrokerRun standardEnv (uploadActs [1, 2, 3] .wrote) w ∧
    Drained (w.out 0) := by
  have fits : Fits toVecNamed (.invoke ((uploadCall [1, 2, 3]).invoke 1)) := by decide +kernel
  obtain ⟨bytes, encoded⟩ := fits_iff_written.mp fits
  have run := (upload_received [1, 2, 3]).snoc (@Step.writer _ _ 0 _ _ (.wrote rfl encoded))
  rw [List.append_assoc] at run
  exact ⟨_, run, Or.inl ⟨rfl, rfl⟩⟩

theorem small_upload_delivered :
    (∃ w, BrokerRun standardEnv (uploadActs [1, 2, 3] .wrote) w ∧
      Delivered toVecNamed (w.out 0) [ackOf standardEnv videoSession]
        [.invoke ((uploadCall [1, 2, 3]).invoke 1)]) ∧
    Delivered toVecNamed (Client.joined musicHello noHandlers).out [.hello musicHello] [] := by
  obtain ⟨w, run, drained⟩ := upload_written
  have both := @delivered_iff_all_fit standardEnv toVecNamed quiet musicHello noHandlers
  constructor
  · have uncut : ∀ b ∈ brokerChannel 0 (uploadActs [1, 2, 3] .wrote), b.cut = false := by
      simp [brokerChannel, channelActs, queues, uploadActs, videoActs, issueActs, connectActs,
        TokimoProgress.queueActs, TokimoProgress.registerActs, ChannelAct.cut]
    refine ⟨w, run, (both.1 _ _ _ run uncut drained).mpr ?_⟩
    intro f mem
    obtain rfl := List.mem_singleton.mp mem
    decide +kernel
  · refine (both.2 _ _ music_joins ?_ (Or.inl ⟨rfl, rfl⟩)).mpr ?_
    · simp [clientChannel, clientChannelActs, TokimoClient.joinActs, ClientAct.sends, ChannelAct.cut]
    · intro f mem
      cases mem

end TokimoWriter

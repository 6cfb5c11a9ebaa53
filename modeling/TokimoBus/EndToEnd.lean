import TokimoBus.SystemCalls
import TokimoBus.SystemProgress
import TokimoBus.ClientTeardown

/-!
Calls from one process to another, end to end. An invoke crosses two spaces of request ids
that a task of the broker translates; the task serves that invoke and no other, it runs at
most one handler, and what the invoke returns is what that handler returned for its payload.
-/
namespace TokimoSystem
open TokimoFrame TokimoOutbound TokimoBroker TokimoSession TokimoClient TokimoChannel
open TokimoIdentity TokimoCorrelation TokimoConfinement TokimoResults TokimoWriter
open TokimoProgress
open TokimoWire (standardEnv)
open LabelledRuns WrappingCounter RequestTable Pipes
variable {env : Env} {debug : BusFrame → String} {procs : Processes} {s : System}
  {acts : List SystemAct} {j k k' : ConnId} {c c' : CallId} {i i' : InvokeId} {inv : Invoke}
  {resp : Response} {bytes : Bytes} {p q : Nat}

/-- The broker spawned call `c` for the frame that invoke `i` of the process at connection `k`
    queued. -/
def Serves (acts : List SystemAct) (k : ConnId) (i : InvokeId) (c : CallId) : Prop :=
  ∃ inv, .client k (.send i inv) ∈ acts ∧ .broker (.spawn k inv c) ∈ acts

/-- A handler starts at position `p` on behalf of call `c`: a local one, or that of a process
    that has read the call's Invoke. -/
inductive Runs (acts : List SystemAct) (c : CallId) (p : Nat) : Prop where
  | locally {h : HandlerId} {ms : Option (List MethodDecl)}
      (starts : acts[p]? = some (.broker (.localAdmit c h ms)))
  | remotely {j : ConnId} {inv : Invoke} {t : TaskId} {h : HandlerId}
      (sent : .broker (.send c j inv) ∈ acts) (read : .client j (.invoke inv t) ∈ acts)
      (starts : acts[p]? = some (.client j (.handle t inv h)))

theorem serves_unique (run : SystemRun env debug procs acts s) (few : Few acts)
    (first : Serves acts k i c) (second : Serves acts k i c') : c = c' := by
  obtain ⟨inv, sent, spawned⟩ := first
  obtain ⟨inv', sent', spawned'⟩ := second
  obtain ⟨m, at_sent⟩ := List.mem_iff_getElem?.mp sent
  obtain ⟨m', at_sent'⟩ := List.mem_iff_getElem?.mp sent'
  have places := client_once (TokimoClient.send_once (client_run run k)) at_sent at_sent'
  subst places
  rw [at_sent] at at_sent'
  cases at_sent'
  obtain ⟨n, at_spawned⟩ := List.mem_iff_getElem?.mp spawned
  obtain ⟨n', at_spawned'⟩ := List.mem_iff_getElem?.mp spawned'
  have places := spawn_once run few at_spawned at_spawned'
  subst places
  rw [at_spawned] at at_spawned'
  cases at_spawned'
  rfl

theorem serves_owner (run : SystemRun env debug procs acts s) (few : Few acts)
    (first : Serves acts k i c) (second : Serves acts k' i' c) : k = k' ∧ i = i' := by
  obtain ⟨inv, sent, spawned⟩ := first
  obtain ⟨inv', sent', spawned'⟩ := second
  obtain ⟨rfl, rfl⟩ := spawn_unique (broker_run run) (mem_brokerActs.mpr spawned)
    (mem_brokerActs.mpr spawned')
  have part := client_run run k
  have own := (send_frame part (mem_clientActs.mpr sent)).2
  have other := (send_frame part (mem_clientActs.mpr sent')).2
  exact ⟨rfl, number_unique _ part (Nat.le_of_lt (few.invokes k)) own other⟩

theorem runs_once (run : SystemRun env debug procs acts s) (few : Few acts)
    (first : Runs acts c p) (second : Runs acts c q) : p = q := by
  have apart : ∀ {h : HandlerId} {ms : Option (List MethodDecl)} {j : ConnId} {inv : Invoke}
      {p : Nat}, acts[p]? = some (.broker (.localAdmit c h ms)) →
      .broker (.send c j inv) ∈ acts → False := by
    intro h ms j inv p starts sent
    exact local_never_sends (broker_run run) (mem_brokerActs.mpr (List.mem_of_getElem? starts))
      (mem_brokerActs.mpr sent)
  cases first with
  | locally starts =>
    cases second with
    | locally starts' => exact broker_once (admit_once (broker_run run)) starts starts'
    | remotely sent' => exact (apart starts sent').elim
  | remotely sent read starts =>
    cases second with
    | locally starts' => exact (apart starts' sent).elim
    | remotely sent' read' starts' =>
      obtain ⟨m, at_sent⟩ := List.mem_iff_getElem?.mp sent
      obtain ⟨m', at_sent'⟩ := List.mem_iff_getElem?.mp sent'
      have places := broker_once (TokimoResults.send_once (broker_run run)) at_sent at_sent'
      subst places
      rw [at_sent] at at_sent'
      cases at_sent'
      obtain ⟨n, at_read⟩ := List.mem_iff_getElem?.mp read
      obtain ⟨n', at_read'⟩ := List.mem_iff_getElem?.mp read'
      have places := invoke_once run few at_read at_read'
      subst places
      rw [at_read] at at_read'
      cases at_read'
      exact client_once (handle_once (client_run run _)) starts starts'

/-- What completes an invoke is the answer of the call that serves it. -/
theorem completed_by (run : SystemRun env debug procs acts s) (few : Few acts)
    (mem : .client k (.complete i resp) ∈ acts) :
    ∃ c, Serves acts k i c ∧ .broker (.answer c k resp) ∈ acts := by
  have part := client_run run k
  obtain ⟨read, inv, sent, same⟩ := complete_answers part (mem_clientActs.mpr mem)
  have own := (send_frame part sent).2
  have plain : Plain (.response resp) := by
    apply plain_response
    rw [← same]
    exact number_nonzero run few own
  obtain ⟨c, answered⟩ := response_answered run plain (mem_clientActs.mp read)
  obtain ⟨inv', spawned, same'⟩ := answer_spawned (broker_run run) (mem_brokerActs.mpr answered)
  have spawned := mem_brokerActs.mp spawned
  obtain ⟨i', sent'⟩ := spawn_sent run spawned
  have other := (send_frame part (mem_clientActs.mpr sent')).2
  rw [← same', ← same] at other
  obtain rfl := number_unique _ part (Nat.le_of_lt (few.invokes k)) own other
  exact ⟨c, ⟨inv', sent', spawned⟩, answered⟩

def appInvoke (env : Env) (procs : Processes) (k : ConnId) (x : InvokeArgs) (r : UInt64) : Call :=
  ⟨.app k (x.frame r), x.service, x.method, x.payload,
    { x.caller with callerAppId := some (procs.hello k).service }, env.config.defaultCallTimeout⟩

theorem serves_call (run : SystemRun env debug procs acts s) (serves : Serves acts k i c)
    (plain : '.' ∉ ((s.client k).args i).service.toList) :
    ∃ r, s.world.call c = appInvoke env procs k ((s.client k).args i) r := by
  obtain ⟨inv, sent, spawned⟩ := serves
  have frame := (send_frame (client_run run k) (mem_clientActs.mpr sent)).1
  obtain ⟨begun, app⟩ := spawned_call (broker_run run) (mem_brokerActs.mpr spawned)
  obtain ⟨⟨ses, session, args⟩, _⟩ := app_call ⟨_, broker_run run⟩ begun app
  refine ⟨inv.reqId, ?_⟩
  have parts : splitOnce inv.method =
      some (((s.client k).args i).service, ((s.client k).args i).method) := by
    rw [frame]
    exact splitOnce_joined plain
  rw [args]
  simp only [appCall, parts, appInvoke, ← frame, Session.service, session_hello run session]
  rw [frame]
  rfl

/-- A handler for the call's service and method returned `bytes` for it: the local one, or that
    of a process registered under the service. -/
inductive Returned (procs : Processes) (acts : List SystemAct) (c : CallId) (call : Call)
    (bytes : Bytes) : Prop where
  | locally {n : Nat} {h : HandlerId} {ms : Option (List MethodDecl)}
      (registered : .broker (.registerHandler n call.service h) ∈ acts)
      (ran : .broker (.localAdmit c h ms) ∈ acts)
      (returned : .broker (.localReturn c h (.ok bytes)) ∈ acts)
  | remotely {j : ConnId} {e : ServiceEntry} {r : UInt64} {t : TaskId} {h : HandlerId}
      (registered : .broker (.publish j e) ∈ acts) (service : e.service = call.service)
      (own : (procs.hello j).service = call.service)
      (handler : procs.handlers j call.method = some h)
      (sent : .broker (.send c j (call.invoke r)) ∈ acts)
      (read : .client j (.invoke (call.invoke r) t) ∈ acts)
      (ran : .client j (.handle t (call.invoke r) h) ∈ acts)
      (returned : .client j (.handled t (call.invoke r) h (.ok bytes)) ∈ acts)

/-- An answer with `Ok` is what one handler returned. -/
theorem answer_returned (run : SystemRun env debug procs acts s) (few : Few acts)
    (mem : .broker (.answer c k resp) ∈ acts) (ok : resp.result = .ok bytes) :
    Returned procs acts c (s.world.call c) bytes := by
  have part := broker_run run
  rcases answer_result part (mem_brokerActs.mpr mem) ok with ⟨h, ms, admitted, returned⟩ |
    ⟨resp', completed, ok'⟩
  · obtain ⟨n, registered⟩ := running_registered part admitted
    exact Returned.locally (mem_brokerActs.mp registered) (mem_brokerActs.mp admitted)
      (mem_brokerActs.mp returned)
  · obtain ⟨m, here⟩ := List.mem_iff_getElem?.mp completed
    have sessions := Nat.le_of_lt few.sessions
    obtain ⟨a, b, j, inv, _, _, at_sent, at_read, same⟩ := complete_matches part sessions here
    have sent := List.mem_of_getElem? at_sent
    have read := mem_brokerActs.mp (List.mem_of_getElem? at_read)
    obtain ⟨e, registered, service⟩ := send_registered part sent
    obtain ⟨ses, session, named⟩ := sent_session part at_sent
    -- the reply comes from the task that read the call's own Invoke
    obtain ⟨t, replied⟩ := response_replied run (plain_ok ok') read
    have process := client_run run j
    obtain ⟨inv', h, handled, number⟩ := reply_handled process (mem_clientActs.mpr replied) ok'
    have ran := handled_handle process handled
    obtain ⟨invoked, handler⟩ := handle_invoked process ran
    obtain ⟨c', sent'⟩ := invoke_sent run (mem_clientActs.mp invoked)
    have own := sent_numbered part sessions sent
    have other := sent_numbered part sessions (mem_brokerActs.mpr sent')
    rw [number, same] at other
    obtain rfl := number_unique _ part (Nat.le_of_lt (few.calls j)) own other
    obtain ⟨l, at_sent'⟩ := List.mem_iff_getElem?.mp (mem_brokerActs.mpr sent')
    have places := TokimoResults.send_once part at_sent at_sent'
    subst places
    rw [at_sent] at at_sent'
    cases at_sent'
    obtain frame := send_args part sent
    rw [frame] at sent invoked handled ran handler
    refine Returned.remotely (mem_brokerActs.mp registered) service ?_ handler
      (mem_brokerActs.mp sent) (mem_clientActs.mp invoked) (mem_clientActs.mp ran)
      (mem_clientActs.mp handled)
    rw [← named, Session.service, session_hello run session]

/-- What the bus promises to the processes that call each other over it. -/
structure EndToEnd (env : Env) (procs : Processes) (acts : List SystemAct) (s : System) : Prop where
  returned : ∀ k i bytes, (s.client k).invokePhase i = .done (.ok bytes) →
    '.' ∉ ((s.client k).args i).service.toList →
    ∃ c r, Serves acts k i c ∧ s.world.call c = appInvoke env procs k ((s.client k).args i) r ∧
      Returned procs acts c (s.world.call c) bytes
  once : ∀ k i c c' p q, Serves acts k i c → Serves acts k i c' → Runs acts c p →
    Runs acts c' q → p = q
  caused : ∀ j t inv h p, acts[p]? = some (.client j (.handle t inv h)) → ∃ c, Runs acts c p
  confined : ∀ k inv c j resp, .broker (.spawn k inv c) ∈ acts → .broker (.answer c j resp) ∈ acts →
    j = k ∧ resp.reqId = inv.reqId
  completed : ∀ k i resp, .client k (.complete i resp) ∈ acts →
    ∃ c, Serves acts k i c ∧ .broker (.answer c k resp) ∈ acts
  owner : ∀ k i k' i' c, Serves acts k i c → Serves acts k' i' c → k = k' ∧ i = i'

theorem rpc_end_to_end (run : SystemRun env debug procs acts s) (few : Few acts) :
    EndToEnd env procs acts s where
  returned := by
    intro k i bytes now plain
    obtain ⟨resp, completed, ok⟩ := ok_completed (client_run run k) now
    obtain ⟨c, serves, answered⟩ := completed_by run few (mem_clientActs.mp completed)
    obtain ⟨r, call⟩ := serves_call run serves plain
    exact ⟨c, r, serves, call, answer_returned run few answered ok⟩
  once := by
    intro k i c c' p q first second here there
    obtain rfl := serves_unique run few first second
    exact runs_once run few here there
  caused := by
    intro j t inv h p starts
    have mem := mem_clientActs.mpr (List.mem_of_getElem? starts)
    have read := mem_clientActs.mp (handle_invoked (client_run run j) mem).1
    obtain ⟨c, sent⟩ := invoke_sent run read
    exact ⟨c, Runs.remotely sent read starts⟩
  confined := by
    intro k inv c j resp spawned answered
    obtain ⟨inv', spawned', same⟩ := answer_spawned (broker_run run) (mem_brokerActs.mpr answered)
    obtain ⟨rfl, rfl⟩ := spawn_unique (broker_run run) (mem_brokerActs.mpr spawned) spawned'
    exact ⟨rfl, same⟩
  completed := fun k i resp mem => completed_by run few mem
  owner := fun k i k' i' c first second => serves_owner run few first second

def pingHello : HelloRequest :=
  ⟨ProtocolVersion.current, "music", "0.1.0", 8, tokenText 0 1 0, [openMethod "ping"], [], none⟩

def pingProcs : Processes := ⟨fun _ => pingHello, fun _ m => if m = "ping" then some 3 else none⟩

def pingSession : Session := ⟨pingHello, 1, 1⟩

def pingAck : HelloAck := ⟨1, Duration.fromSecs 15⟩

def pingWorld : World :=
  World.connected standardEnv (World.issued standardEnv World.init "music" 0) 0 pingHello 0

def pingClient : Client := Client.joined pingHello (pingProcs.handlers 0)

def joinedActs : List SystemAct :=
  (issueActs standardEnv 0 "music" 0 0).map .broker ++ [SystemAct.client 0 (.greet (.hello pingHello))] ++
    (connectActs standardEnv 0 pingSession 0).map .broker ++
    [SystemAct.client 0 (.acked pingAck), .client 0 .run]

theorem ping_joins : SystemRun standardEnv quiet pingProcs joinedActs
    (System.pair pingProcs 0 pingWorld pingClient [] []) := by
  have run : SystemRun standardEnv quiet pingProcs [] (System.pair pingProcs 0 World.init
      (Client.new pingHello (pingProcs.handlers 0)) [] []) := by
    change Run _ (System.start pingProcs) [] _
    rw [start_pair pingProcs 0]
    exact Run.nil
  have run := run_append run (@broker_moves _ _ _ 0 _ _ _ _ _ _ []
    (token_issued standardEnv World.init (n := 0) rfl "music" 0)
    (by simp [issueActs, brokerReads, brokerWrites]) rfl)
  have run := run_append run (@client_moves _ _ _ 0 _ _ _ _ _ _ []
    (run_single (ClientStep.greet rfl (by decide +kernel))) rfl)
  have run := run_append run (@broker_moves _ _ _ 0 _ _ _ _ _ _ []
    (@connects standardEnv (World.issued standardEnv World.init "music" 0) 0 0 pingHello rfl rfl rfl
      rfl (by decide +kernel)) (by simp [connectActs, brokerReads, brokerWrites]) rfl)
  exact run_append run (@client_moves _ _ _ 0 _ _ _ _ _ _ []
    ((run_single (ClientStep.acked (a := pingAck) rfl)).snoc (ClientStep.run rfl)) rfl)

def pingInvoke (payload : Bytes) : InvokeArgs := ⟨"music", "ping", payload, CallerCtx.default⟩

def callActs : List ClientAct :=
  TokimoClient.queueActs 0 (pingInvoke [5]) 1 ++
    [ClientAct.writer (.recv (.invoke ((pingInvoke [5]).frame 1))),
      .writer (.wrote (.invoke ((pingInvoke [5]).frame 1)))]

def passedInvoke : Invoke := ⟨1, "ping", [5], { CallerCtx.default with callerAppId := some "music" }⟩

def passActs : List Act :=
  [.spawn 0 ((pingInvoke [5]).frame 1) 1, .localLookup 1 none, .permit 1 (pingSession.entry 0),
    .route 1 0, .number 1 0 1, .register 1 0 1, .send 1 0 passedInvoke,
    .writer 0 (.recv (.invoke passedInvoke)), .writer 0 (.wrote (.invoke passedInvoke))]

def handleActs : List ClientAct :=
  [.invoke passedInvoke 0, .handle 0 passedInvoke 3, .handled 0 passedInvoke 3 (.ok [7]),
    .reply 0 ⟨1, .ok [7]⟩, .writer (.recv (.response ⟨1, .ok [7]⟩)),
    .writer (.wrote (.response ⟨1, .ok [7]⟩))]

def replyActs : List Act :=
  [.response 0 ⟨1, .ok [7]⟩ (some 1), .complete 1 ⟨1, .ok [7]⟩, .answer 1 0 ⟨1, .ok [7]⟩,
    .writer 0 (.recv (.response ⟨1, .ok [7]⟩)), .writer 0 (.wrote (.response ⟨1, .ok [7]⟩))]

structure Awaiting (c : Client) : Prop where
  ready : Ready c 1
  next : c.nextReqId = 2
  waiting : c.invokePhase 0 = .await 1
  listed : c.pending 1 = some 0
  args : c.args 0 = pingInvoke [5]

theorem ping_client : ∃ c, Run (ClientStep TokimoWire.toVecNamed quiet) pingClient
    (callActs ++ handleActs) c ∧ Awaiting c := by
  have sent_fits : Fits TokimoWire.toVecNamed (.invoke ((pingInvoke [5]).frame 1)) := by decide +kernel
  obtain ⟨sent, sent_ok⟩ := fits_iff_written.mp sent_fits
  have replied_fits : Fits TokimoWire.toVecNamed (.response ⟨1, .ok [7]⟩) := by decide +kernel
  obtain ⟨replied, replied_ok⟩ := fits_iff_written.mp replied_fits
  have run : Run (ClientStep TokimoWire.toVecNamed quiet) pingClient _ _ :=
    invoke_queues (i := 0) (x := pingInvoke [5]) rfl (Or.inl rfl) (by decide)
  have run := run.snoc (ClientStep.writer (.recv rfl rfl))
  have run := run.snoc (ClientStep.writer (.wrote rfl sent_ok))
  have run := run.snoc (@ClientStep.invoke _ _ _ passedInvoke 0 rfl rfl)
  have run := run.snoc (ClientStep.handle (t := 0) (h := 3) rfl rfl)
  have run := run.snoc (@ClientStep.handled _ _ _ 0 _ _ (.ok [7]) rfl)
  have run := run.snoc (ClientStep.reply (t := 0) rfl (by decide))
  have run := run.snoc (ClientStep.writer (.recv rfl rfl))
  have run := run.snoc (ClientStep.writer (.wrote rfl replied_ok))
  have ready : Ready pingClient 0 := ⟨rfl, by decide, fun _ _ => rfl⟩
  have fresh := (ready_queued ready (pingInvoke [5])).fresh
  exact ⟨_, run, ⟨rfl, by decide, fresh⟩, rfl, rfl, rfl, rfl⟩

theorem ping_broker : ∃ w, Run (Step standardEnv) pingWorld (passActs ++ replyActs) w := by
  have sent_fits : Fits TokimoWire.toVecNamed (.invoke passedInvoke) := by decide +kernel
  obtain ⟨sent, sent_ok⟩ := fits_iff_written.mp sent_fits
  have replied_fits : Fits TokimoWire.toVecNamed (.response ⟨1, .ok [7]⟩) := by decide +kernel
  obtain ⟨replied, replied_ok⟩ := fits_iff_written.mp replied_fits
  have run := run_single (@Step.spawn standardEnv pingWorld 0 pingSession
    ((pingInvoke [5]).frame 1) 1 rfl rfl)
  have run := run.snoc (Step.localMiss (c := 1) rfl rfl)
  have run := run.snoc (Step.permit (c := 1) (e := pingSession.entry 0) rfl rfl rfl)
  have run := run.snoc (Step.route (c := 1) (k := 0) rfl rfl)
  have run := run.snoc (Step.number (c := 1) (k := 0) rfl)
  have run := run.snoc (Step.register (c := 1) (k := 0) rfl)
  have run := run.snoc (Step.send (c := 1) (k := 0) rfl (by decide))
  have run := run.snoc (Step.writer (k := 0) (.recv rfl rfl))
  have run := run.snoc (Step.writer (k := 0) (.wrote rfl sent_ok))
  have run := run.snoc (@Step.response _ _ 0 _ ⟨1, .ok [7]⟩ (some 1) rfl rfl)
  have run := run.snoc (Step.complete (c := 1) rfl rfl)
  have run := run.snoc (Step.answer (c := 1) (k := 0) rfl rfl (by decide))
  have run := run.snoc (Step.writer (k := 0) (.recv rfl rfl))
  have run := run.snoc (Step.writer (k := 0) (.wrote rfl replied_ok))
  exact ⟨_, run⟩

def answeredActs : List SystemAct :=
  joinedActs ++ callActs.map (.client 0) ++ passActs.map .broker ++ handleActs.map (.client 0) ++
    replyActs.map .broker

theorem ping_answered : ∃ w c, SystemRun standardEnv quiet pingProcs answeredActs
    (System.pair pingProcs 0 w c [] [.response ⟨1, .ok [7]⟩]) ∧ Awaiting c := by
  obtain ⟨c, process, awaiting⟩ := ping_client
  obtain ⟨v, calls, handles⟩ := run_split process
  obtain ⟨w, broker⟩ := ping_broker
  obtain ⟨u, passes, replies⟩ := run_split broker
  have run := run_append ping_joins (@client_moves _ _ _ 0 _ _ _ _ _ _ [] calls rfl)
  have run := run_append run (@broker_moves _ _ _ 0 _ _ _ _ _ _ [] passes
    (by simp [passActs, brokerReads, brokerWrites]) rfl)
  have run := run_append run (@client_moves _ _ _ 0 _ _ _ _ _ _ [] handles rfl)
  have run := run_append run (@broker_moves _ _ _ 0 _ _ _ _ _ _ [] replies
    (by simp [replyActs, brokerReads, brokerWrites]) rfl)
  exact ⟨w, c, run, awaiting⟩

def pingActs : List SystemAct :=
  answeredActs ++ [SystemAct.client 0 (.response ⟨1, .ok [7]⟩ (some 0)),
    .client 0 (.complete 0 ⟨1, .ok [7]⟩)]

theorem ping_run : ∃ w c, SystemRun standardEnv quiet pingProcs pingActs
    (System.pair pingProcs 0 w c [] []) ∧ c.invokePhase 0 = .done (.ok [7]) ∧
      c.args 0 = pingInvoke [5] := by
  obtain ⟨w, c, run, awaiting⟩ := ping_answered
  have completes := @response_completes TokimoWire.toVecNamed quiet c 0 ⟨1, .ok [7]⟩
    awaiting.ready.reading awaiting.waiting awaiting.listed
  have run := run_append run (@client_moves _ _ _ 0 _ _ _ _ _ _ [] completes rfl)
  refine ⟨w, _, run, ?_, ?_⟩
  · simp [Client.answered, Client.setInvokePhase]
  · exact awaiting.args

theorem few_short (short : acts.length < 2 ^ 64) : Few acts := by
  have broker : (brokerActs acts).length ≤ acts.length :=
    parts_length (fun x => by cases x <;> simp [SystemAct.ofBroker]) acts
  have client : ∀ k, (clientActs k acts).length ≤ acts.length := by
    intro k
    apply parts_length
    intro x
    cases x with
    | broker => simp [SystemAct.ofClient]
    | client j b =>
      simp only [SystemAct.ofClient]
      split <;> simp
  constructor
  · have count : taken generateTakes (brokerActs acts) ≤ _ := List.countP_le_length
    omega
  · intro k
    have count : taken (numberTakes k) (brokerActs acts) ≤ _ := List.countP_le_length
    omega
  · intro k
    have count : taken reqIdTakes (clientActs k acts) ≤ _ := List.countP_le_length
    have own := client k
    omega

theorem ping_run_returned : ∃ (s : System) (c : CallId) (r : UInt64), Serves pingActs 0 0 c ∧
    s.world.call c = appInvoke standardEnv pingProcs 0 (pingInvoke [5]) r ∧
    Returned pingProcs pingActs c (s.world.call c) [7] := by
  obtain ⟨w, c, run, done, args⟩ := ping_run
  have args : ((System.pair pingProcs 0 w c [] []).client 0).args 0 = pingInvoke [5] := by
    simpa [System.pair] using args
  obtain ⟨call, r, serves, known, returned⟩ := (rpc_end_to_end run (few_short (by decide))).returned
    0 0 [7] (by simpa [System.pair] using done) (by rw [args]; decide)
  rw [args] at known
  exact ⟨_, call, r, serves, known, returned⟩

/-- The last invoke before the counter comes round to a number that is still in use. -/
theorem stale_completes {c : Client} {next : InvokeId} (ready : Ready c next)
    (wrapped : c.nextReqId = 1) (x : InvokeArgs) :
    Run (ClientStep TokimoWire.toVecNamed quiet) c (TokimoClient.queueActs next x 1 ++
      [.response ⟨1, .ok [7]⟩ (some next), .complete next ⟨1, .ok [7]⟩])
      ((c.queued next x).answered next ⟨1, .ok [7]⟩) := by
  have queued := @invoke_queues TokimoWire.toVecNamed quiet c next x
    (ready.fresh next (Nat.le_refl _)) (Or.inl (by rw [ready.reading]; rfl)) ready.alive
  rw [wrapped] at queued
  have reading := (ready_queued ready x).reading
  refine run_append queued (response_completes reading ?_ ?_)
  · simp [Client.queued, Client.invoking, Client.setInvokePhase, Client.push, Client.setOut,
      Client.setPending, wrapped]
  · simp [Client.queued, Client.invoking, Client.setInvokePhase, Client.begin, Client.push,
      Client.setOut, Client.setPending, Client.takeReqId, wrapped]

theorem stale_response_returned : ¬ ∀ acts s, SystemRun standardEnv quiet pingProcs acts s →
    EndToEnd standardEnv pingProcs acts s := by
  intro claim
  obtain ⟨w, c, run, awaiting⟩ := ping_answered
  obtain ⟨steps, d, many, ready, counter, unread, unwritten⟩ :=
    @invoke_many standardEnv quiet c 1 awaiting.ready (pingInvoke [5]) (2 ^ 64 - 1)
  have wrapped : d.nextReqId = 1 := by
    rw [counter, awaiting.next]
    decide
  generalize 1 + (2 ^ 64 - 1) = last at ready
  have stale := stale_completes ready wrapped (pingInvoke [6])
  have whole := run_append run (@client_moves standardEnv quiet pingProcs 0 w _ _ [] _ _ []
    (run_append many stale) (by rw [List.filterMap_append, unread]; rfl))
  generalize final : (d.queued last (pingInvoke [6])).answered last ⟨1, .ok [7]⟩ = e at whole
  have done : ∀ up, ((System.pair pingProcs 0 w e up []).client 0).invokePhase last =
      .done (.ok [7]) := by
    simp [← final, System.pair, Client.answered, Client.setInvokePhase]
  have args : ∀ up, ((System.pair pingProcs 0 w e up []).client 0).args last = pingInvoke [6] := by
    simp [← final, System.pair, Client.answered, Client.setInvokePhase, Client.wake,
      Client.setPending, Client.queued, Client.invoking, Client.begin]
  obtain ⟨call, r, ⟨inv, sent, spawned⟩, _⟩ := (claim _ _ whole).returned 0 last [7] (done _)
    (by rw [args]; decide)
  have frame := (send_frame (client_run whole 0) (mem_clientActs.mpr sent)).1
  have first : inv = (pingInvoke [5]).frame 1 := by
    simp [answeredActs, joinedActs, callActs, passActs, handleActs, replyActs, issueActs,
      connectActs] at spawned
    exact spawned.1
  rw [args, first] at frame
  simp [InvokeArgs.frame, pingInvoke] at frame

end TokimoSystem

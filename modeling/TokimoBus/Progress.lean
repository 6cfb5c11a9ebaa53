import TokimoBus.Wire
import TokimoBus.Calls

/-!
What undisturbed parties achieve. From any state, a fresh connection with the right
token becomes a registered and attached session, and a host call that its catalogue
permits registers under the session's next number and queues its Invoke.
-/
namespace TokimoProgress
open TokimoFrame TokimoOutbound TokimoBroker TokimoSession TokimoWire LabelledRuns
variable {env : Env} {w : World} {k : ConnId} {c : CallId} {h : HelloRequest} {s : Session}
  {x : Call} {r : UInt64}

theorem setPhase_here (w : World) (k : ConnId) (p : Phase) : (w.setPhase k p).phase k = p := by
  simp [World.setPhase]

theorem session_here {s' : Session} {stage : Stage}
    (now : (w.setPhase k (.live s' stage)).session k = some s) : s' = s := by
  simpa [World.session, World.setPhase, Phase.session] using now

theorem setPhase_setPhase (w : World) (k : ConnId) (p q : Phase) :
    (w.setPhase k p).setPhase k q = w.setPhase k q := by
  simp [World.setPhase]

theorem setPhase_broker (w : World) (k : ConnId) (p q : Phase) (b : Broker) :
    ((w.setPhase k p).withBroker b).setPhase k q = (w.withBroker b).setPhase k q :=
  setPhase_setPhase (w.withBroker b) k p q

theorem setPhase_out (w : World) (k : ConnId) (p q : Phase) (o : Outbound) :
    ((w.setPhase k p).setOut k o).setPhase k q = (w.setOut k o).setPhase k q :=
  setPhase_setPhase (w.setOut k o) k p q

theorem setPhase_begin (w : World) (k : ConnId) (c : CallId) (p q : Phase) (b : Broker) (x : Call) :
    (((w.setPhase k p).withBroker b).begin c x .start).setPhase k q =
      ((w.withBroker b).begin c x .start).setPhase k q :=
  setPhase_setPhase ((w.withBroker b).begin c x .start) k p q

theorem begin_here (w : World) (c : CallId) (x : Call) (p : CallPhase) :
    (w.begin c x p).callPhase c = p := by
  simp [World.begin, World.setCallPhase]

theorem begin_call (w : World) (c : CallId) (x : Call) (p : CallPhase) :
    (w.begin c x p).call c = x := by
  simp [World.begin]

theorem begin_setCallPhase (w : World) (c : CallId) (x : Call) (p q : CallPhase) :
    (w.begin c x p).setCallPhase c q = w.begin c x q := by
  simp [World.begin, World.setCallPhase]

theorem begin_same {p : CallPhase} (here : w.callPhase c = p) (args : w.call c = x) :
    w.begin c x p = w := by
  subst here args
  simp [World.begin, World.setCallPhase]

def World.issued (env : Env) (w : World) (service : String) (ns : UInt64) : World :=
  w.withBroker ((w.broker.randomToken env.pid ns).2.storeToken service
    (tokenText ns env.pid w.broker.counter))

def issueActs (env : Env) (n : Nat) (service : String) (ns ctr : UInt64) : List Act :=
  [.mint n service ns ctr (tokenText ns env.pid ctr), .issue n service (tokenText ns env.pid ctr)]

theorem token_issued (env : Env) (w : World) {n : Nat} (idle : w.minted n = none) (service : String)
    (ns : UInt64) :
    Run (Step env) w (issueActs env n service ns w.broker.counter)
      (World.issued env w service ns) := by
  have first : Step env w (.mint n service ns w.broker.counter
    (tokenText ns env.pid w.broker.counter)) _ := Step.mint idle rfl
  have run := (run_single first).snoc (Step.issue (Function.update_self _ _ _))
  have restored : Function.update (Function.update w.minted n
      (some (service, tokenText ns env.pid w.broker.counter))) n none = w.minted := by
    rw [Function.update_idem, ← idle, Function.update_eq_self]
  have same : World.issued env w service ns =
      { World.issued env w service ns with minted := Function.update (Function.update w.minted n
        (some (service, tokenText ns env.pid w.broker.counter))) n none } := by
    rw [restored]
    rfl
  rw [same]
  exact run

def sessionOf (b : Broker) (h : HelloRequest) : Session :=
  ⟨h, b.nextClientId, b.registry.nextGen + 1⟩

def ackOf (env : Env) (s : Session) : BusFrame :=
  .helloAck ⟨s.clientId, env.config.heartbeatInterval⟩

def registered (b : Broker) (k : ConnId) (h : HelloRequest) : Broker :=
  let s := sessionOf b h
  let admitted := (b.consumeToken h.service h.authToken).2.takeClientId.2
  let published := admitted.withRegistry (admitted.registry.allocate.2.publish (s.entry k))
  (published.attachSession s.service s.generation ⟨k⟩).removeCapabilities s.service

def World.connected (env : Env) (w : World) (k : ConnId) (h : HelloRequest) (c : CallId) : World :=
  let s := sessionOf w.broker h
  (((w.withBroker (registered w.broker k h)).setOut k ((w.out k).direct (ackOf env s)).spawn).begin
    c (probeCall env.config s) .start).setPhase k (.live s .read)

def connectActs (env : Env) (k : ConnId) (s : Session) (c : CallId) : List Act :=
  [.accept k, .hello k s.hello, .consume k s.hello true, .clientId k s.clientId, .generate k s,
    .publish k (s.entry k), .ack k (ackOf env s), .attach k, .probe k c]

def published (b : Broker) (k : ConnId) (h : HelloRequest) : Broker :=
  let admitted := (b.consumeToken h.service h.authToken).2.takeClientId.2
  admitted.withRegistry (admitted.registry.allocate.2.publish ((sessionOf b h).entry k))

def World.acked (env : Env) (w : World) (k : ConnId) (h : HelloRequest) : World :=
  let s := sessionOf w.broker h
  ((w.withBroker (published w.broker k h)).setOut k
    ((w.out k).direct (ackOf env s)).spawn).setPhase k (.live s .attach)

def ackActs (env : Env) (k : ConnId) (s : Session) : List Act :=
  [.accept k, .hello k s.hello, .consume k s.hello true, .clientId k s.clientId, .generate k s,
    .publish k (s.entry k), .ack k (ackOf env s)]

theorem acknowledges (fresh : w.phase k = .unused)
    (major : h.protocol.major = ProtocolVersion.current.major)
    (issued : w.broker.tokens h.service = some h.authToken)
    (fits : Fits env.toVecNamed (ackOf env (sessionOf w.broker h))) :
    Run (Step env) w (ackActs env k (sessionOf w.broker h)) (World.acked env w k h) := by
  have verdict : (w.broker.consumeToken h.service h.authToken).1 = true := by
    simp [Broker.consumeToken, issued]
  have phase : helloPhase h = .check h := by simp [helloPhase, major]
  have run : Run (Step env) w [] w := Run.nil
  have run := run.snoc (Step.accept fresh)
  have run := run.snoc (@Step.hello _ _ k h (setPhase_here _ _ _))
  rw [setPhase_setPhase, phase] at run
  have run := run.snoc (@Step.consume _ _ k h true (setPhase_here _ _ _) verdict.symm)
  rw [setPhase_broker] at run
  have run := run.snoc (@Step.clientId _ _ k h (setPhase_here _ _ _))
  rw [setPhase_broker] at run
  have run := run.snoc (@Step.generate _ _ k h _ (sessionOf w.broker h) (setPhase_here _ _ _) rfl)
  rw [setPhase_broker] at run
  have run := run.snoc (Step.publish (setPhase_here _ _ _))
  rw [setPhase_broker] at run
  have run := run.snoc (Step.ack (setPhase_here _ _ _) rfl fits)
  rw [setPhase_out] at run
  exact run

theorem attaches (new : w.callPhase c = .unused) :
    Run (Step env) (World.acked env w k h) [.attach k, .probe k c]
      (World.connected env w k h c) := by
  have run := run_single (@Step.attach env (World.acked env w k h) k _ (setPhase_here _ _ _))
  rw [World.acked, setPhase_broker] at run
  have run := run.snoc (@Step.probe _ _ k _ c (setPhase_here _ _ _) new)
  rw [setPhase_begin] at run
  exact run

theorem connects (fresh : w.phase k = .unused) (new : w.callPhase c = .unused)
    (major : h.protocol.major = ProtocolVersion.current.major)
    (issued : w.broker.tokens h.service = some h.authToken)
    (fits : Fits env.toVecNamed (ackOf env (sessionOf w.broker h))) :
    Run (Step env) w (connectActs env k (sessionOf w.broker h) c) (World.connected env w k h c) :=
  run_append (acknowledges fresh major issued fits) (attaches new)

def openMethod (name : String) : MethodDecl := ⟨name, false, false, .post, none, none⟩

def hostCall (service method : String) (timeout : Duration) : Call :=
  ⟨.host, service, method, [], CallerCtx.default, timeout⟩

def videoHello (token : String) : HelloRequest :=
  ⟨ProtocolVersion.current, "video", "0.1.0", 7, token, [openMethod "play"], [], none⟩

def videoToken : String := tokenText 0 1 0

def videoSession : Session := ⟨videoHello videoToken, 1, 1⟩

/-- A broker to which one app has just connected; call 0 is the probe of its capabilities. -/
def videoWorld : World :=
  World.connected standardEnv (World.issued standardEnv World.init "video" 0) 0
    (videoHello videoToken) 0

def videoActs : List Act :=
  issueActs standardEnv 0 "video" 0 0 ++ connectActs standardEnv 0 videoSession 0

theorem video_run : BrokerRun standardEnv videoActs videoWorld := by
  refine run_append (token_issued standardEnv World.init rfl "video" 0) ?_
  refine connects rfl rfl rfl rfl ?_
  change Fits toVecNamed (.helloAck ⟨1, Duration.fromSecs 15⟩)
  decide +kernel

structure Connected (w : World) (k : ConnId) (s : Session) : Prop where
  reading : w.phase k = .live s .read
  listed : w.broker.registry.get s.service = some (s.entry k)
  attached : w.broker.sessions (s.service, s.generation) = some ⟨k⟩
  alive : (w.out k).IsOpen

theorem connected_after (env : Env) (w : World) (k : ConnId) (h : HelloRequest) (c : CallId) :
    Connected (World.connected env w k h c) k (sessionOf w.broker h) := by
  refine ⟨?_, ?_, ?_, ?_⟩
  · simp [World.connected, World.setPhase]
  · simp [World.connected, World.setPhase, World.begin, World.setCallPhase, World.setOut,
      World.withBroker, registered, Broker.removeCapabilities, Broker.attachSession,
      Broker.withRegistry, Registry.get, Registry.publish, Session.entry]
  · simp [World.connected, World.setPhase, World.begin, World.setCallPhase, World.setOut,
      World.withBroker, registered, Broker.removeCapabilities, Broker.attachSession]
  · simp [World.connected, World.setPhase, World.begin, World.setCallPhase, World.setOut,
      Outbound.IsOpen, Outbound.spawn]

def World.listing (w : World) (c : CallId) (x : Call) (s : Session) (k : ConnId) : World :=
  ((w.takeReqId k).setPending k (w.nextReqId k) (some c)).begin c x
    (.send (s.entry k) k (w.nextReqId k))

def registerActs (c : CallId) (x : Call) (s : Session) (k : ConnId) (r : UInt64) : List Act :=
  [.call c x, .localLookup c none, .permit c (s.entry k), .route c k, .number c k r,
    .register c k r]

def permitActs (c : CallId) (x : Call) (s : Session) (k : ConnId) : List Act :=
  [.call c x, .localLookup c none, .permit c (s.entry k)]

theorem begun_permitted (listed : w.broker.registry.get s.service = some (s.entry k))
    (target : x.service = s.service) (remote : w.broker.localServices s.service = none)
    (passed : remoteGate (s.entry k) x.service x.method x.caller = .ok ()) :
    Run (Step env) (w.begin c x .start) [.localLookup c none, .permit c (s.entry k)]
      (w.begin c x (.route (s.entry k))) := by
  have run : Run (Step env) (w.begin c x .start) [] _ := Run.nil
  have run := run.snoc (@Step.localMiss _ _ c (begin_here _ _ _ _)
    (by rw [begin_call, target]; exact remote))
  rw [begin_setCallPhase] at run
  have run := run.snoc (@Step.permit _ _ c (s.entry k) (begin_here _ _ _ _)
    (by rw [begin_call, target]; exact listed) (by rw [begin_call]; exact passed))
  rw [begin_setCallPhase] at run
  exact run

theorem call_permitted (listed : w.broker.registry.get s.service = some (s.entry k))
    (new : w.callPhase c = .unused) (host : x.origin = .host) (target : x.service = s.service)
    (remote : w.broker.localServices s.service = none)
    (passed : remoteGate (s.entry k) x.service x.method x.caller = .ok ()) :
    Run (Step env) w (permitActs c x s k) (w.begin c x (.route (s.entry k))) :=
  run_cons (Step.call new host) (begun_permitted listed target remote passed)

theorem begun_registers (connected : Connected w k s) (target : x.service = s.service)
    (remote : w.broker.localServices s.service = none)
    (passed : remoteGate (s.entry k) x.service x.method x.caller = .ok ()) :
    Run (Step env) (w.begin c x .start) [.localLookup c none, .permit c (s.entry k), .route c k,
      .number c k (w.nextReqId k), .register c k (w.nextReqId k)] (World.listing w c x s k) := by
  have run := @begun_permitted env w k c s x connected.listed target remote passed
  have run := run.snoc (@Step.route _ _ c (s.entry k) k (begin_here _ _ _ _)
    (by rw [begin_call, target]; exact connected.attached))
  rw [begin_setCallPhase] at run
  have run := run.snoc (@Step.number _ _ c (s.entry k) k (begin_here _ _ _ _))
  have run := run.snoc (@Step.register _ _ c (s.entry k) k (w.nextReqId k)
    (by simp [World.setCallPhase, World.begin]))
  have same : World.listing w c x s k = ((((w.begin c x (.number (s.entry k) k)).takeReqId
      k).setCallPhase c (.register (s.entry k) k (w.nextReqId k))).setPending k (w.nextReqId k)
        (some c)).setCallPhase c (.send (s.entry k) k (w.nextReqId k)) := by
    simp [World.listing, World.begin, World.setCallPhase, World.takeReqId, World.setPending]
  rw [same]
  exact run

theorem call_registers (connected : Connected w k s) (new : w.callPhase c = .unused)
    (host : x.origin = .host) (target : x.service = s.service)
    (remote : w.broker.localServices s.service = none)
    (passed : remoteGate (s.entry k) x.service x.method x.caller = .ok ()) :
    Run (Step env) w (registerActs c x s k (w.nextReqId k)) (World.listing w c x s k) :=
  run_cons (Step.call new host) (begun_registers connected target remote passed)

def World.queued (w : World) (c : CallId) (x : Call) (k : ConnId) : World :=
  (((w.takeReqId k).setPending k (w.nextReqId k) (some c)).push k
    (.invoke (x.invoke (w.nextReqId k)))).begin c x (.await k (w.nextReqId k))

def queueActs (c : CallId) (x : Call) (s : Session) (k : ConnId) (r : UInt64) : List Act :=
  registerActs c x s k r ++ [Act.send c k (x.invoke r)]

theorem send_queues (alive : (w.out k).IsOpen) :
    Step env (World.listing w c x s k) (.send c k (x.invoke (w.nextReqId k)))
      (World.queued w c x k) := by
  have sent := @Step.send env (World.listing w c x s k) c (s.entry k) k (w.nextReqId k)
    (begin_here _ _ _ _) alive
  have args : (World.listing w c x s k).call c = x := begin_call _ _ _ _
  rw [args] at sent
  have same : World.queued w c x k = ((World.listing w c x s k).push k
      (.invoke (x.invoke (w.nextReqId k)))).setCallPhase c (.await k (w.nextReqId k)) := by
    simp [World.queued, World.listing, World.begin, World.setCallPhase, World.push, World.setOut,
      World.takeReqId, World.setPending]
  rw [same]
  exact sent

theorem call_queues (connected : Connected w k s) (new : w.callPhase c = .unused)
    (host : x.origin = .host) (target : x.service = s.service)
    (remote : w.broker.localServices s.service = none)
    (passed : remoteGate (s.entry k) x.service x.method x.caller = .ok ()) :
    Run (Step env) w (queueActs c x s k (w.nextReqId k)) (World.queued w c x k) :=
  (call_registers connected new host target remote passed).snoc (send_queues connected.alive)

def World.answered (w : World) (k : ConnId) (c : CallId) (resp : Response) : World :=
  ((w.setPending k resp.reqId none).wake (some c) resp).setCallPhase c (.done resp.result)

theorem response_completes {resp : Response} (reading : w.phase k = .live s .read)
    (waiting : w.callPhase c = .await k resp.reqId)
    (listed : w.pendingOut k resp.reqId = some c) :
    Run (Step env) w [.response k resp (some c), .complete c resp] (World.answered w k c resp) := by
  have run := run_single (@Step.response env _ k s resp _ reading listed.symm)
  have value : ((w.setPending k resp.reqId none).wake (some c) resp).reply c = some resp := by
    simp [World.wake, World.setPending, waiting, CallPhase.listens]
  exact run.snoc (Step.complete waiting value)

theorem video_connected : Connected videoWorld 0 videoSession :=
  connected_after standardEnv _ 0 (videoHello videoToken) 0

def playCall : Call := hostCall "video" "play" Duration.zero

theorem play_queued : BrokerRun standardEnv (videoActs ++ queueActs 1 playCall videoSession 0 1)
    (World.queued videoWorld 1 playCall 0) :=
  run_append video_run (call_queues video_connected rfl rfl rfl rfl rfl)

def playActs : List Act :=
  videoActs ++ queueActs 1 playCall videoSession 0 1 ++
    [Act.response 0 ⟨1, .ok []⟩ (some 1), .complete 1 ⟨1, .ok []⟩]

theorem play_run : ∃ w, BrokerRun standardEnv playActs w :=
  ⟨_, run_append play_queued (response_completes rfl rfl rfl)⟩

def endActs (k : ConnId) : List Act :=
  [.hangup k, .detach k, .check k true, .forget k, .removeIf k]

def World.ending (w : World) (k : ConnId) (s : Session) : World :=
  (w.withBroker (((w.broker.removeSession s.service s.generation).removeCapabilities
    s.service).withRegistry (w.broker.registry.removeIf s.service s.generation))).setPhase k
      (.live s .abort)

/-- The teardown of `serve`, up to the abort of the writer task. -/
theorem session_ends (connected : Connected w k s) :
    Run (Step env) w (endActs k) (World.ending w k s) := by
  have current : w.broker.shouldRemove s.service s.generation = true := by
    simp [Broker.shouldRemove, connected.listed, Session.entry]
  have run : Run (Step env) w [] w := Run.nil
  have run := run.snoc (Step.hangup connected.reading)
  have run := run.snoc (Step.detach (setPhase_here _ _ _))
  rw [setPhase_broker] at run
  have run := run.snoc (@Step.check _ _ k s true (setPhase_here _ _ _) current.symm)
  rw [setPhase_setPhase] at run
  have run := run.snoc (Step.forget (setPhase_here _ _ _))
  rw [setPhase_broker] at run
  have run := run.snoc (Step.removeIf (setPhase_here _ _ _))
  rw [setPhase_broker] at run
  exact run

end TokimoProgress

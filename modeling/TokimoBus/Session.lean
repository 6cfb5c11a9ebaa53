import TokimoBus.Broker

/-!
The broker as a transition system. Its parties are the connections, each running
`serve`, and the calls, each running `call_with_timeout` for the embedding host,
for an Invoke frame that a session read, or for the capability probe. A step is
one access to state that other tasks share; what a task computes from its own
variables is part of the step before it. The frames a peer sends are arbitrary.
-/
namespace TokimoSession
open TokimoFrame TokimoOutbound TokimoBroker LabelledRuns

structure Session where
  hello : HelloRequest
  clientId : UInt64
  generation : UInt64
  deriving DecidableEq

abbrev Session.service (s : Session) : String := s.hello.service

inductive Stage where
  | publish
  | ack
  | rollback
  | attach
  | probe
  | read
  | fan (ev : Event) (targets : List String)
  | deliver (ev : Event) (target : ConnId) (targets : List String)
  | detach
  | check
  | forget
  | removeIf
  | abort
  | done
  deriving DecidableEq

inductive Phase where
  | unused
  | handshake
  | check (h : HelloRequest)
  | reject (e : BusError)
  | refused
  | admitted (h : HelloRequest)
  | numbered (h : HelloRequest) (clientId : UInt64)
  | live (s : Session) (stage : Stage)
  deriving DecidableEq

def Phase.session : Phase → Option Session
  | .live s _ => some s
  | _ => none

/-- `serve` still owns the session's pending table. -/
def Phase.holdsTable : Phase → Bool
  | .live _ .done => false
  | .live _ _ => true
  | _ => false

inductive Origin where
  | host
  | app (k : ConnId) (inv : Invoke)
  | probe (service : String) (generation : UInt64)
  deriving DecidableEq

inductive CallPhase where
  | unused
  | start
  | localGate (h : HandlerId)
  | localRun (h : HandlerId)
  | lookup
  | route (e : ServiceEntry)
  | number (e : ServiceEntry) (k : ConnId)
  | register (e : ServiceEntry) (k : ConnId) (r : UInt64)
  | send (e : ServiceEntry) (k : ConnId) (r : UInt64)
  | await (k : ConnId) (r : UInt64)
  | expire (k : ConnId) (r : UInt64)
  | done (result : Outcome)
  | cancelled
  | caching (c : ServiceCapabilities)
  | answered
  deriving DecidableEq

def CallPhase.handle : CallPhase → Option ConnId
  | .number _ k => some k
  | .register _ k _ => some k
  | .send _ k _ => some k
  | .await k _ => some k
  | .expire k _ => some k
  | _ => none

/-- The receiving half of the call's oneshot channel exists. -/
def CallPhase.listens : CallPhase → Bool
  | .send _ _ _ => true
  | .await _ _ => true
  | _ => false

structure Call where
  origin : Origin
  service : String
  method : String
  payload : Bytes
  caller : CallerCtx
  timeout : Duration
  deriving DecidableEq

def Call.unused : Call := ⟨.host, "", "", [], CallerCtx.default, Duration.zero⟩

def Call.invoke (c : Call) (r : UInt64) : Invoke := ⟨r, c.method, c.payload, c.caller⟩

def probePayload : Bytes := [123, 125]

def probeCall (config : BrokerConfig) (s : Session) : Call :=
  ⟨.probe s.service s.generation, s.service, "capabilities", probePayload, CallerCtx.default,
    config.defaultCallTimeout⟩

/-- The call that the task spawned for an Invoke frame makes, and where it starts: a method
    name without a dot is answered at once. -/
def appCall (config : BrokerConfig) (k : ConnId) (originator : String) (inv : Invoke) :
    Call × CallPhase :=
  match splitOnce inv.method with
  | some (service, method) =>
    (⟨.app k inv, service, method, inv.payload,
      { inv.caller with callerAppId := some originator }, config.defaultCallTimeout⟩, .start)
  | none =>
    ({ Call.unused with origin := .app k inv },
      .done (.error (.badRequest
        ("invoke method must be `service.method`, got `" ++ inv.method ++ "`"))))

/-- The tables of the broker, then what belongs to each connection (the phase of `serve`, its
    outbound half, its pending table and request counter), to each call (its arguments, how far
    it has come, the slot of its oneshot channel) and to the host's own operations. -/
structure World where
  broker : Broker
  phase : ConnId → Phase
  out : ConnId → Outbound
  pendingOut : ConnId → UInt64 → Option CallId
  nextReqId : ConnId → UInt64
  call : CallId → Call
  callPhase : CallId → CallPhase
  reply : CallId → Option Response
  minted : Nat → Option (String × String)
  registering : Nat → Option (String × HandlerId)
  stopping : Nat → Option ConnId

def World.init : World where
  broker := Broker.new
  phase := fun _ => .unused
  out := fun _ => Outbound.fresh
  pendingOut := fun _ _ => none
  nextReqId := fun _ => 1
  call := fun _ => Call.unused
  callPhase := fun _ => .unused
  reply := fun _ => none
  minted := fun _ => none
  registering := fun _ => none
  stopping := fun _ => none

def World.withBroker (w : World) (b : Broker) : World := { w with broker := b }

def World.setPhase (w : World) (k : ConnId) (p : Phase) : World :=
  { w with phase := Function.update w.phase k p }

def World.setOut (w : World) (k : ConnId) (o : Outbound) : World :=
  { w with out := Function.update w.out k o }

def World.push (w : World) (k : ConnId) (f : BusFrame) : World := w.setOut k ((w.out k).push f)

def World.setPending (w : World) (k : ConnId) (r : UInt64) (c : Option CallId) : World :=
  { w with pendingOut := Function.update w.pendingOut k (Function.update (w.pendingOut k) r c) }

def World.takeReqId (w : World) (k : ConnId) : World :=
  { w with nextReqId := Function.update w.nextReqId k (w.nextReqId k + 1) }

def World.setCallPhase (w : World) (c : CallId) (p : CallPhase) : World :=
  { w with callPhase := Function.update w.callPhase c p }

def World.begin (w : World) (c : CallId) (x : Call) (p : CallPhase) : World :=
  { w.setCallPhase c p with call := Function.update w.call c x }

/-- `waker.send(resp)`: the value is lost when the receiving half is gone. -/
def World.wake (w : World) (hit : Option CallId) (resp : Response) : World :=
  { w with
    reply := match hit with
      | some c =>
        if (w.callPhase c).listens then Function.update w.reply c (some resp) else w.reply
      | none => w.reply }

def World.setMinted (w : World) (n : Nat) (m : Option (String × String)) : World :=
  { w with minted := Function.update w.minted n m }

def World.setRegistering (w : World) (n : Nat) (m : Option (String × HandlerId)) : World :=
  { w with registering := Function.update w.registering n m }

def World.setStopping (w : World) (n : Nat) (m : Option ConnId) : World :=
  { w with stopping := Function.update w.stopping n m }

def World.session (w : World) (k : ConnId) : Option Session := (w.phase k).session

def World.TableOwned (w : World) (k : ConnId) : Prop :=
  (w.phase k).holdsTable = true ∨ (∃ key, w.broker.sessions key = some ⟨k⟩) ∨
    ∃ c, (w.callPhase c).handle = some k

def World.SenderAlive (w : World) (c : CallId) : Prop :=
  ∃ k r, w.pendingOut k r = some c ∧ w.TableOwned k

inductive Act where
  -- the handshake of `serve`
  | accept (k : ConnId)
  | noHello (k : ConnId) (f : Option BusFrame)
  | hello (k : ConnId) (h : HelloRequest)
  | consume (k : ConnId) (h : HelloRequest) (ok : Bool)
  | reject (k : ConnId) (f : BusFrame)
  | rejectBroken (k : ConnId) (cut : Bytes)
  | clientId (k : ConnId) (id : UInt64)
  | generate (k : ConnId) (s : Session)
  | publish (k : ConnId) (e : ServiceEntry)
  | ack (k : ConnId) (f : BusFrame)
  | ackBroken (k : ConnId) (cut : Bytes)
  | rollback (k : ConnId)
  | attach (k : ConnId)
  | probe (k : ConnId) (c : CallId)
  -- its main loop
  | response (k : ConnId) (r : Response) (hit : Option CallId)
  | fanout (k : ConnId) (ev : Event) (targets : List String)
  | target (k : ConnId) (svc : String) (found : Option ServiceEntry)
  | deliver (k : ConnId) (target : ConnId) (ev : Event)
  | undelivered (k : ConnId) (target : ConnId)
  | fanned (k : ConnId)
  | subscribe (k : ConnId) (topicPrefix : String)
  | unsubscribe (k : ConnId) (topicPrefix : String)
  | spawn (k : ConnId) (inv : Invoke) (c : CallId)
  | ignore (k : ConnId) (f : BusFrame)
  | hangup (k : ConnId)
  -- its teardown
  | detach (k : ConnId)
  | check (k : ConnId) (remove : Bool)
  | forget (k : ConnId)
  | removeIf (k : ConnId)
  | abort (k : ConnId)
  | writer (k : ConnId) (x : WriterAct)
  -- `call_with_timeout` and the tasks around it
  | call (c : CallId) (x : Call)
  | localLookup (c : CallId) (h : Option HandlerId)
  | localAdmit (c : CallId) (h : HandlerId) (ms : Option (List MethodDecl))
  | localRefuse (c : CallId) (ms : Option (List MethodDecl)) (e : BusError)
  | localReturn (c : CallId) (h : HandlerId) (result : Outcome)
  | localTimeout (c : CallId)
  | lookupNone (c : CallId)
  | permit (c : CallId) (e : ServiceEntry)
  | refuse (c : CallId) (e : ServiceEntry) (err : BusError)
  | routeNone (c : CallId)
  | route (c : CallId) (k : ConnId)
  | number (c : CallId) (k : ConnId) (r : UInt64)
  | register (c : CallId) (k : ConnId) (r : UInt64)
  | send (c : CallId) (k : ConnId) (inv : Invoke)
  | sendClosed (c : CallId)
  | complete (c : CallId) (r : Response)
  | senderGone (c : CallId)
  | elapse (c : CallId)
  | expire (c : CallId) (k : ConnId) (r : UInt64)
  | cancel (c : CallId)
  | answer (c : CallId) (k : ConnId) (r : Response)
  | answerClosed (c : CallId)
  | probeCheck (c : CallId) (current : Bool)
  | probeFail (c : CallId)
  | cache (c : CallId) (service : String) (caps : ServiceCapabilities)
  -- the embedding host
  | mint (n : Nat) (service : String) (ns ctr : UInt64) (token : String)
  | issue (n : Nat) (service token : String)
  | registerMethods (n : Nat) (service : String) (ms : List MethodDecl) (h : HandlerId)
  | registerHandler (n : Nat) (service : String) (h : HandlerId)
  | shutdown (n : Nat) (service : String) (e : ServiceEntry)
  | shutdownSend (n : Nat) (k : ConnId)
  | shutdownClosed (n : Nat)

def Ignored : BusFrame → Prop
  | .response _ | .publish _ | .subscribe _ | .unsubscribe _ | .invoke _ => False
  | _ => True

instance (f : BusFrame) : Decidable (Ignored f) := by
  cases f <;> simp only [Ignored] <;> infer_instance

def rejection (e : BusError) : BusFrame := .response ⟨0, .error e⟩

def helloPhase (h : HelloRequest) : Phase :=
  if h.protocol.major ≠ ProtocolVersion.current.major then
    .reject (.protocolMismatch ProtocolVersion.current h.protocol)
  else .check h

def Session.entry (s : Session) (k : ConnId) : ServiceEntry :=
  ⟨s.service, s.generation, k, s.hello.methods, s.hello.pid, s.hello.dataPlane⟩

def targetStage (ev : Event) (rest : List String) : Option ServiceEntry → Stage
  | some e => .deliver ev e.tx rest
  | none => .fan ev rest

def parsedCapabilities (env : Env) (bytes : Bytes) : Option ServiceCapabilities :=
  (env.capabilityResponse bytes).map fun r => ⟨r.1, r.2.toFinset⟩

inductive Step (env : Env) : World → Act → World → Prop where
  | accept {w : World} {k : ConnId} (new : w.phase k = .unused) :
      Step env w (.accept k) (w.setPhase k .handshake)
  | noHello {w : World} {k : ConnId} {f : Option BusFrame}
      (here : w.phase k = .handshake) (other : ∀ h, f ≠ some (.hello h)) :
      Step env w (.noHello k f) (w.setPhase k .refused)
  | hello {w : World} {k : ConnId} {h : HelloRequest} (here : w.phase k = .handshake) :
      Step env w (.hello k h) (w.setPhase k (helloPhase h))
  | consume {w : World} {k : ConnId} {h : HelloRequest} {ok : Bool}
      (here : w.phase k = .check h)
      (verdict : ok = (w.broker.consumeToken h.service h.authToken).1) :
      Step env w (.consume k h ok)
        ((w.withBroker (w.broker.consumeToken h.service h.authToken).2).setPhase k
          (if ok then .admitted h else .reject .invalidAuthToken))
  | reject {w : World} {k : ConnId} {e : BusError} (here : w.phase k = .reject e)
      (fits : Fits env.toVecNamed (rejection e)) :
      Step env w (.reject k (rejection e))
        ((w.setOut k ((w.out k).direct (rejection e))).setPhase k .refused)
  | rejectBroken {w : World} {k : ConnId} {e : BusError} {cut : Bytes}
      (here : w.phase k = .reject e)
      (part : cut <+: frameBytes env.toVecNamed (rejection e)) :
      Step env w (.rejectBroken k cut)
        ((w.setOut k ((w.out k).tear cut)).setPhase k .refused)
  | clientId {w : World} {k : ConnId} {h : HelloRequest}
      (here : w.phase k = .admitted h) :
      Step env w (.clientId k w.broker.takeClientId.1)
        ((w.withBroker w.broker.takeClientId.2).setPhase k
          (.numbered h w.broker.takeClientId.1))
  | generate {w : World} {k : ConnId} {h : HelloRequest} {id : UInt64} {s : Session}
      (here : w.phase k = .numbered h id)
      (named : s = ⟨h, id, w.broker.registry.allocate.1⟩) :
      Step env w (.generate k s)
        ((w.withBroker (w.broker.withRegistry w.broker.registry.allocate.2)).setPhase k
          (.live s .publish))
  | publish {w : World} {k : ConnId} {s : Session}
      (here : w.phase k = .live s .publish) :
      Step env w (.publish k (s.entry k))
        ((w.withBroker (w.broker.withRegistry (w.broker.registry.publish (s.entry k)))).setPhase
          k (.live s .ack))
  | ack {w : World} {k : ConnId} {s : Session} {f : BusFrame}
      (here : w.phase k = .live s .ack)
      (frame : f = .helloAck ⟨s.clientId, env.config.heartbeatInterval⟩)
      (fits : Fits env.toVecNamed f) :
      Step env w (.ack k f)
        ((w.setOut k ((w.out k).direct f).spawn).setPhase k (.live s .attach))
  | ackBroken {w : World} {k : ConnId} {s : Session} {cut : Bytes}
      (here : w.phase k = .live s .ack)
      (part : cut <+: frameBytes env.toVecNamed
        (.helloAck ⟨s.clientId, env.config.heartbeatInterval⟩)) :
      Step env w (.ackBroken k cut)
        ((w.setOut k ((w.out k).tear cut)).setPhase k (.live s .rollback))
  -- `serve` returns here, and the receiver of its channel goes with it
  | rollback {w : World} {k : ConnId} {s : Session}
      (here : w.phase k = .live s .rollback) :
      Step env w (.rollback k)
        (((w.withBroker (w.broker.withRegistry
          (w.broker.registry.removeIf s.service s.generation))).setOut k
            (w.out k).stop).setPhase k (.live s .done))
  | attach {w : World} {k : ConnId} {s : Session}
      (here : w.phase k = .live s .attach) :
      Step env w (.attach k)
        ((w.withBroker (w.broker.attachSession s.service s.generation ⟨k⟩)).setPhase k
          (.live s .probe))
  | probe {w : World} {k : ConnId} {s : Session} {c : CallId}
      (here : w.phase k = .live s .probe) (new : w.callPhase c = .unused) :
      Step env w (.probe k c)
        (((w.withBroker (w.broker.removeCapabilities s.service)).begin c
          (probeCall env.config s) .start).setPhase k (.live s .read))
  | response {w : World} {k : ConnId} {s : Session} {r : Response} {hit : Option CallId}
      (here : w.phase k = .live s .read) (found : hit = w.pendingOut k r.reqId) :
      Step env w (.response k r hit) ((w.setPending k r.reqId none).wake hit r)
  | fanout {w : World} {k : ConnId} {s : Session} {ev : Event} {targets : List String}
      (here : w.phase k = .live s .read) (once : targets.Nodup)
      (all : targets.toFinset = w.broker.fanoutTargets s.service ev.topic) :
      Step env w (.fanout k ev targets)
        (w.setPhase k (.live s (.fan { ev with fromService := some s.service } targets)))
  | target {w : World} {k : ConnId} {s : Session} {ev : Event} {svc : String}
      {rest : List String} {found : Option ServiceEntry}
      (here : w.phase k = .live s (.fan ev (svc :: rest)))
      (looked : found = w.broker.registry.get svc) :
      Step env w (.target k svc found) (w.setPhase k (.live s (targetStage ev rest found)))
  | deliver {w : World} {k j : ConnId} {s : Session} {ev : Event} {rest : List String}
      (here : w.phase k = .live s (.deliver ev j rest)) (alive : (w.out j).IsOpen) :
      Step env w (.deliver k j ev) ((w.push j (.event ev)).setPhase k (.live s (.fan ev rest)))
  | undelivered {w : World} {k j : ConnId} {s : Session} {ev : Event} {rest : List String}
      (here : w.phase k = .live s (.deliver ev j rest))
      (closed : ¬ (w.out j).IsOpen) :
      Step env w (.undelivered k j) (w.setPhase k (.live s (.fan ev rest)))
  | fanned {w : World} {k : ConnId} {s : Session} {ev : Event}
      (here : w.phase k = .live s (.fan ev [])) :
      Step env w (.fanned k) (w.setPhase k (.live s .read))
  | subscribe {w : World} {k : ConnId} {s : Session} {p : String}
      (here : w.phase k = .live s .read) :
      Step env w (.subscribe k p) (w.withBroker (w.broker.subscribe s.service p))
  | unsubscribe {w : World} {k : ConnId} {s : Session} {p : String}
      (here : w.phase k = .live s .read) :
      Step env w (.unsubscribe k p) (w.withBroker (w.broker.unsubscribe s.service p))
  | spawn {w : World} {k : ConnId} {s : Session} {inv : Invoke} {c : CallId}
      (here : w.phase k = .live s .read) (new : w.callPhase c = .unused) :
      Step env w (.spawn k inv c)
        (w.begin c (appCall env.config k s.service inv).1 (appCall env.config k s.service inv).2)
  | ignore {w : World} {k : ConnId} {s : Session} {f : BusFrame}
      (here : w.phase k = .live s .read) (other : Ignored f) :
      Step env w (.ignore k f) w
  | hangup {w : World} {k : ConnId} {s : Session} (here : w.phase k = .live s .read) :
      Step env w (.hangup k) (w.setPhase k (.live s .detach))
  | detach {w : World} {k : ConnId} {s : Session} (here : w.phase k = .live s .detach) :
      Step env w (.detach k)
        ((w.withBroker (w.broker.removeSession s.service s.generation)).setPhase k
          (.live s .check))
  | check {w : World} {k : ConnId} {s : Session} {remove : Bool}
      (here : w.phase k = .live s .check)
      (verdict : remove = w.broker.shouldRemove s.service s.generation) :
      Step env w (.check k remove)
        (w.setPhase k (.live s (if remove then .forget else .removeIf)))
  | forget {w : World} {k : ConnId} {s : Session} (here : w.phase k = .live s .forget) :
      Step env w (.forget k)
        ((w.withBroker (w.broker.removeCapabilities s.service)).setPhase k (.live s .removeIf))
  | removeIf {w : World} {k : ConnId} {s : Session}
      (here : w.phase k = .live s .removeIf) :
      Step env w (.removeIf k)
        ((w.withBroker (w.broker.withRegistry
          (w.broker.registry.removeIf s.service s.generation))).setPhase k (.live s .abort))
  | abort {w : World} {k : ConnId} {s : Session} (here : w.phase k = .live s .abort) :
      Step env w (.abort k)
        ((w.setOut k (w.out k).abort).setPhase k (.live s .done))
  | writer {w : World} {k : ConnId} {x : WriterAct} {o : Outbound}
      (one : WriterStep env.toVecNamed (w.out k) x o) :
      Step env w (.writer k x) (w.setOut k o)
  | call {w : World} {c : CallId} {x : Call} (new : w.callPhase c = .unused)
      (host : x.origin = .host) : Step env w (.call c x) (w.begin c x .start)
  | localHit {w : World} {c : CallId} {h : HandlerId} (here : w.callPhase c = .start)
      (found : w.broker.localServices (w.call c).service = some h) :
      Step env w (.localLookup c (some h)) (w.setCallPhase c (.localGate h))
  | localMiss {w : World} {c : CallId} (here : w.callPhase c = .start)
      (absent : w.broker.localServices (w.call c).service = none) :
      Step env w (.localLookup c none) (w.setCallPhase c .lookup)
  -- the handler is called in the step that read the catalogue
  | localAdmit {w : World} {c : CallId} {h : HandlerId} {ms : Option (List MethodDecl)}
      (here : w.callPhase c = .localGate h)
      (catalogue : ms = w.broker.localServiceMethods (w.call c).service)
      (passed : localGate ms (w.call c).service (w.call c).method (w.call c).caller = .ok ()) :
      Step env w (.localAdmit c h ms) (w.setCallPhase c (.localRun h))
  | localRefuse {w : World} {c : CallId} {h : HandlerId} {ms : Option (List MethodDecl)}
      {e : BusError} (here : w.callPhase c = .localGate h)
      (catalogue : ms = w.broker.localServiceMethods (w.call c).service)
      (refused : localGate ms (w.call c).service (w.call c).method (w.call c).caller
        = .error e) :
      Step env w (.localRefuse c ms e) (w.setCallPhase c (.done (.error e)))
  | localReturn {w : World} {c : CallId} {h : HandlerId} {result : Outcome}
      (here : w.callPhase c = .localRun h) :
      Step env w (.localReturn c h result) (w.setCallPhase c (.done result))
  | localTimeout {w : World} {c : CallId} {h : HandlerId}
      (here : w.callPhase c = .localRun h) (timed : (w.call c).timeout.isZero = false) :
      Step env w (.localTimeout c)
        (w.setCallPhase c (.done (.error (.timeout (w.call c).timeout.asMillis))))
  | lookupNone {w : World} {c : CallId} (here : w.callPhase c = .lookup)
      (absent : w.broker.registry.get (w.call c).service = none) :
      Step env w (.lookupNone c)
        (w.setCallPhase c (.done (.error (.serviceNotFound (w.call c).service))))
  | permit {w : World} {c : CallId} {e : ServiceEntry} (here : w.callPhase c = .lookup)
      (found : w.broker.registry.get (w.call c).service = some e)
      (passed : remoteGate e (w.call c).service (w.call c).method (w.call c).caller
        = .ok ()) :
      Step env w (.permit c e) (w.setCallPhase c (.route e))
  | refuse {w : World} {c : CallId} {e : ServiceEntry} {err : BusError}
      (here : w.callPhase c = .lookup)
      (found : w.broker.registry.get (w.call c).service = some e)
      (refused : remoteGate e (w.call c).service (w.call c).method (w.call c).caller
        = .error err) :
      Step env w (.refuse c e err) (w.setCallPhase c (.done (.error err)))
  | routeNone {w : World} {c : CallId} {e : ServiceEntry} (here : w.callPhase c = .route e)
      (absent : w.broker.sessions ((w.call c).service, e.generation) = none) :
      Step env w (.routeNone c)
        (w.setCallPhase c (.done (.error (.serviceNotFound (w.call c).service))))
  | route {w : World} {c : CallId} {e : ServiceEntry} {k : ConnId}
      (here : w.callPhase c = .route e)
      (found : w.broker.sessions ((w.call c).service, e.generation) = some ⟨k⟩) :
      Step env w (.route c k) (w.setCallPhase c (.number e k))
  | number {w : World} {c : CallId} {e : ServiceEntry} {k : ConnId}
      (here : w.callPhase c = .number e k) :
      Step env w (.number c k (w.nextReqId k))
        ((w.takeReqId k).setCallPhase c
          (.register e k (w.nextReqId k)))
  | register {w : World} {c : CallId} {e : ServiceEntry} {k : ConnId} {r : UInt64}
      (here : w.callPhase c = .register e k r) :
      Step env w (.register c k r) ((w.setPending k r (some c)).setCallPhase c (.send e k r))
  | send {w : World} {c : CallId} {e : ServiceEntry} {k : ConnId} {r : UInt64}
      (here : w.callPhase c = .send e k r) (alive : (w.out e.tx).IsOpen) :
      Step env w (.send c e.tx ((w.call c).invoke r))
        ((w.push e.tx (.invoke ((w.call c).invoke r))).setCallPhase c (.await k r))
  | sendClosed {w : World} {c : CallId} {e : ServiceEntry} {k : ConnId} {r : UInt64}
      (here : w.callPhase c = .send e k r) (closed : ¬ (w.out e.tx).IsOpen) :
      Step env w (.sendClosed c)
        (w.setCallPhase c (.done (.error (.serviceNotFound (w.call c).service))))
  | complete {w : World} {c : CallId} {k : ConnId} {r : UInt64} {resp : Response}
      (here : w.callPhase c = .await k r) (value : w.reply c = some resp) :
      Step env w (.complete c resp) (w.setCallPhase c (.done resp.result))
  | senderGone {w : World} {c : CallId} {k : ConnId} {r : UInt64}
      (here : w.callPhase c = .await k r) (empty : w.reply c = none)
      (gone : ¬ w.SenderAlive c) :
      Step env w (.senderGone c) (w.setCallPhase c (.done (.error .connectionClosed)))
  -- the receiver is dropped with the timed-out future, before the entry is removed
  | elapse {w : World} {c : CallId} {k : ConnId} {r : UInt64}
      (here : w.callPhase c = .await k r) (timed : (w.call c).timeout.isZero = false) :
      Step env w (.elapse c) (w.setCallPhase c (.expire k r))
  | expire {w : World} {c : CallId} {k : ConnId} {r : UInt64}
      (here : w.callPhase c = .expire k r) :
      Step env w (.expire c k r)
        ((w.setPending k r none).setCallPhase c
          (.done (.error (.timeout (w.call c).timeout.asMillis))))
  -- the host drops the future before its first poll or at one of its await points
  | cancelStart {w : World} {c : CallId} (host : (w.call c).origin = .host)
      (here : w.callPhase c = .start) :
      Step env w (.cancel c) (w.setCallPhase c .cancelled)
  | cancelLocal {w : World} {c : CallId} {h : HandlerId} (host : (w.call c).origin = .host)
      (here : w.callPhase c = .localRun h) :
      Step env w (.cancel c) (w.setCallPhase c .cancelled)
  | cancelAwait {w : World} {c : CallId} {k : ConnId} {r : UInt64}
      (host : (w.call c).origin = .host) (here : w.callPhase c = .await k r) :
      Step env w (.cancel c) (w.setCallPhase c .cancelled)
  | answer {w : World} {c : CallId} {k : ConnId} {inv : Invoke} {result : Outcome}
      (app : (w.call c).origin = .app k inv) (here : w.callPhase c = .done result)
      (alive : (w.out k).IsOpen) :
      Step env w (.answer c k ⟨inv.reqId, result⟩)
        ((w.push k (.response ⟨inv.reqId, result⟩)).setCallPhase c .answered)
  | answerClosed {w : World} {c : CallId} {k : ConnId} {inv : Invoke} {result : Outcome}
      (app : (w.call c).origin = .app k inv) (here : w.callPhase c = .done result)
      (closed : ¬ (w.out k).IsOpen) :
      Step env w (.answerClosed c) (w.setCallPhase c .answered)
  | probeCheck {w : World} {c : CallId} {service : String} {generation : UInt64} {bytes : Bytes}
      {caps : ServiceCapabilities} {current : Bool}
      (task : (w.call c).origin = .probe service generation)
      (here : w.callPhase c = .done (.ok bytes))
      (parsed : parsedCapabilities env bytes = some caps)
      (verdict : current = w.broker.stillCurrent service generation) :
      Step env w (.probeCheck c current)
        (w.setCallPhase c (if current then .caching caps else .answered))
  | probeFail {w : World} {c : CallId} {service : String} {generation : UInt64}
      {result : Outcome} (task : (w.call c).origin = .probe service generation)
      (here : w.callPhase c = .done result)
      (useless : ∀ bytes, result = .ok bytes → parsedCapabilities env bytes = none) :
      Step env w (.probeFail c) (w.setCallPhase c .answered)
  | cache {w : World} {c : CallId} {service : String} {generation : UInt64}
      {caps : ServiceCapabilities} (task : (w.call c).origin = .probe service generation)
      (here : w.callPhase c = .caching caps) :
      Step env w (.cache c service caps)
        ((w.withBroker (w.broker.storeCapabilities service caps)).setCallPhase c .answered)
  | mint {w : World} {n : Nat} {service token : String} {ns : UInt64}
      (new : w.minted n = none) (text : token = (w.broker.randomToken env.pid ns).1) :
      Step env w (.mint n service ns w.broker.counter token)
        ((w.withBroker (w.broker.randomToken env.pid ns).2).setMinted n (some (service, token)))
  | issue {w : World} {n : Nat} {service token : String}
      (ready : w.minted n = some (service, token)) :
      Step env w (.issue n service token)
        ((w.withBroker (w.broker.storeToken service token)).setMinted n none)
  | registerMethods {w : World} {n : Nat} {service : String} {ms : List MethodDecl}
      {h : HandlerId} (new : w.registering n = none) :
      Step env w (.registerMethods n service ms h)
        ((w.withBroker (w.broker.storeLocalMethods service ms)).setRegistering n
          (some (service, h)))
  | registerHandler {w : World} {n : Nat} {service : String} {h : HandlerId}
      (ready : w.registering n = some (service, h)) :
      Step env w (.registerHandler n service h)
        ((w.withBroker (w.broker.storeLocalHandler service h)).setRegistering n none)
  | shutdown {w : World} {n : Nat} {service : String} {e : ServiceEntry}
      (new : w.stopping n = none) (found : w.broker.registry.get service = some e) :
      Step env w (.shutdown n service e) (w.setStopping n (some e.tx))
  | shutdownSend {w : World} {n : Nat} {k : ConnId} (ready : w.stopping n = some k)
      (alive : (w.out k).IsOpen) :
      Step env w (.shutdownSend n k) ((w.push k .shutdown).setStopping n none)
  | shutdownClosed {w : World} {n : Nat} {k : ConnId} (ready : w.stopping n = some k)
      (closed : ¬ (w.out k).IsOpen) :
      Step env w (.shutdownClosed n) (w.setStopping n none)

abbrev BrokerRun (env : Env) (acts : List Act) (w : World) : Prop :=
  Run (Step env) World.init acts w

abbrev BrokerReachable (env : Env) (w : World) : Prop := Reachable (Step env) World.init w

abbrev At (acts : List Act) (i : Nat) (a : Act) : Prop := acts[i]? = some a

end TokimoSession

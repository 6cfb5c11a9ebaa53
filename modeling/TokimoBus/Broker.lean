import TokimoBus.Outbound
import TokimoBus.PaddedHex
import Mathlib.Data.Finmap

/-!
The tables a broker shares between its tasks and the operations on them. Each
definition is one function of the source, or one of its steps on a shared map
when other tasks can run in between. Connections, calls and local handlers are
named by opaque numbers; an `Arc` to a session's pending table or counter, and
the sending half of its channel, are the number of its connection.
-/
namespace TokimoBroker
open TokimoFrame TokimoOutbound PaddedHex

abbrev ConnId := Nat
abbrev CallId := Nat
abbrev HandlerId := Nat

structure BrokerConfig where
  heartbeatInterval : Duration
  defaultCallTimeout : Duration
  deriving DecidableEq

def BrokerConfig.default : BrokerConfig := ⟨Duration.fromSecs 15, Duration.fromSecs 30⟩

structure ServiceEntry where
  service : String
  generation : UInt64
  tx : ConnId
  methods : List MethodDecl
  pid : UInt32
  dataPlane : Option DataPlaneSocket
  deriving DecidableEq

structure Registry where
  entries : String → Option ServiceEntry
  nextGen : UInt64

def Registry.empty : Registry := ⟨fun _ => none, 0⟩

/-- The first half of `Registry::insert`: a generation is taken under the counter's lock. -/
def Registry.allocate (r : Registry) : UInt64 × Registry :=
  (r.nextGen + 1, { r with nextGen := r.nextGen + 1 })

/-- The second half of `Registry::insert`: the entry is published. -/
def Registry.publish (r : Registry) (entry : ServiceEntry) : Registry :=
  { r with entries := Function.update r.entries entry.service (some entry) }

def Registry.get (r : Registry) (service : String) : Option ServiceEntry := r.entries service

def Registry.removeIf (r : Registry) (service : String) (generation : UInt64) : Registry :=
  { r with
    entries := match r.entries service with
      | some v =>
        if v.generation = generation then Function.update r.entries service none else r.entries
      | none => r.entries }

structure ServiceCapabilities where
  version : String
  methods : Finset String
  deriving DecidableEq

structure SessionHandle where
  session : ConnId
  deriving DecidableEq

abbrev Subscriptions := Finmap fun _ : String => Finset String

structure Broker where
  registry : Registry
  nextClientId : UInt64
  tokens : String → Option String
  sessions : String × UInt64 → Option SessionHandle
  subscriptions : Subscriptions
  localServices : String → Option HandlerId
  localServiceMethods : String → Option (List MethodDecl)
  capabilities : String → Option ServiceCapabilities
  /-- the process-wide `COUNTER` of `random_token` -/
  counter : UInt64

def Broker.new : Broker :=
  ⟨Registry.empty, 1, fun _ => none, fun _ => none, ∅, fun _ => none, fun _ => none,
    fun _ => none, 0⟩

def tokenText (ns : UInt64) (pid : UInt32) (ctr : UInt64) : String :=
  hexPadded 16 ns.toNat ++ hexPadded 8 pid.toNat ++ hexPadded 16 ctr.toNat

def Broker.randomToken (b : Broker) (pid : UInt32) (ns : UInt64) : String × Broker :=
  (tokenText ns pid b.counter, { b with counter := b.counter + 1 })

def Broker.storeToken (b : Broker) (service token : String) : Broker :=
  { b with tokens := Function.update b.tokens service (some token) }

def Broker.consumeToken (b : Broker) (service token : String) : Bool × Broker :=
  (match b.tokens service with
    | some expected => expected == token
    | none => false,
    { b with tokens := Function.update b.tokens service none })

def Broker.takeClientId (b : Broker) : UInt64 × Broker :=
  (b.nextClientId, { b with nextClientId := b.nextClientId + 1 })

def Broker.withRegistry (b : Broker) (r : Registry) : Broker := { b with registry := r }

def Broker.attachSession (b : Broker) (service : String) (generation : UInt64)
    (handle : SessionHandle) : Broker :=
  { b with sessions := Function.update b.sessions (service, generation) (some handle) }

def Broker.removeSession (b : Broker) (service : String) (generation : UInt64) : Broker :=
  { b with sessions := Function.update b.sessions (service, generation) none }

/-- The check of `detach_session`: nobody else is registered under this name. -/
def Broker.shouldRemove (b : Broker) (service : String) (generation : UInt64) : Bool :=
  match b.registry.get service with
  | some entry => entry.generation == generation
  | none => true

def Broker.removeCapabilities (b : Broker) (service : String) : Broker :=
  { b with capabilities := Function.update b.capabilities service none }

def Broker.storeCapabilities (b : Broker) (service : String) (c : ServiceCapabilities) : Broker :=
  { b with capabilities := Function.update b.capabilities service (some c) }

def Broker.getCapabilities (b : Broker) (service : String) : Option ServiceCapabilities :=
  b.capabilities service

def Broker.stillCurrent (b : Broker) (service : String) (generation : UInt64) : Bool :=
  match b.registry.get service with
  | some entry => entry.generation == generation
  | none => false

/-- The first step of `register_local_service`: the catalogue goes in before the handler. -/
def Broker.storeLocalMethods (b : Broker) (service : String) (methods : List MethodDecl) :
    Broker :=
  { b with localServiceMethods := Function.update b.localServiceMethods service (some methods) }

def Broker.storeLocalHandler (b : Broker) (service : String) (handler : HandlerId) : Broker :=
  { b with localServices := Function.update b.localServices service (some handler) }

def localGate (methods : Option (List MethodDecl)) (service method : String)
    (caller : CallerCtx) : Except BusError Unit :=
  match methods with
  | none => .ok ()
  | some methods =>
    match methods.find? (fun m => m.name == method) with
    | none => .error (.methodNotFound service method)
    | some decl =>
      if decl.requiresAuth && caller.userId.isNone then .error (.unauthorized service method)
      else .ok ()

def remoteGate (entry : ServiceEntry) (service method : String) (caller : CallerCtx) :
    Except BusError Unit :=
  match entry.methods.find? (fun m => m.name == method) with
  | none => .error (.methodNotFound service method)
  | some decl =>
    if decl.requiresAuth && caller.userId.isNone then .error (.unauthorized service method)
    else .ok ()

def Broker.subscribe (b : Broker) (service topicPrefix : String) : Broker :=
  let prefixes := (b.subscriptions.lookup service).getD ∅
  { b with subscriptions := b.subscriptions.insert service (insert topicPrefix prefixes) }

def Broker.unsubscribe (b : Broker) (service topicPrefix : String) : Broker :=
  { b with
    subscriptions := match b.subscriptions.lookup service with
      | some prefixes => b.subscriptions.insert service (prefixes.erase topicPrefix)
      | none => b.subscriptions }

def startsWith (topic p : String) : Bool := p.toList.isPrefixOf topic.toList

/-- The subscribers `fanout` collects under the lock, without their order. -/
def Broker.fanoutTargets (b : Broker) (fromService topic : String) : Finset String :=
  b.subscriptions.keys.filter fun svc =>
    svc ≠ fromService ∧ ∃ p ∈ (b.subscriptions.lookup svc).getD ∅, startsWith topic p = true

def splitOnce (s : String) : Option (String × String) :=
  match s.toList.span (· ≠ '.') with
  | (_, []) => none
  | (before, _ :: after) => some (String.ofList before, String.ofList after)

/-- What the broker's tasks see of their surroundings: its configuration, the frame
    encoder, the parser of a capability response, and the process id. -/
structure Env where
  config : BrokerConfig
  toVecNamed : Encoder
  capabilityResponse : Bytes → Option (String × List String)
  pid : UInt32

end TokimoBroker

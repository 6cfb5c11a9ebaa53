import TokimoBus.Client
import TokimoBus.Supervisor
import TokimoBus.DecimalText

/-!
How an app comes to its configuration: the environment that `spawn_once` gives to the process,
what `ClientConfig::from_env` makes of it, and what `BusClientBuilder` makes of that. A handler
table is a list, in the order in which the map is walked.
-/
namespace TokimoConfig
open TokimoFrame TokimoBroker TokimoSupervisor DecimalText

inductive Endpoint where
  | unixSocket (path : String)
  deriving DecidableEq

structure ClientConfig where
  endpoint : Endpoint
  authToken : String
  reconnectMaxBackoff : Option Duration
  idleExit : Option Duration
  deriving DecidableEq

abbrev Environment := String → Option String

def socketVar : String := "TOKIMO_BUS_SOCKET"
def tokenVar : String := "TOKIMO_BUS_TOKEN"
def idleVar : String := "TOKIMO_BUS_IDLE_MS"

def parseEndpoint (raw : String) : Except BusError Endpoint := .ok (.unixSocket raw)

def idleMillis (env : Environment) : UInt64 :=
  match (env idleVar).bind (parse (2 ^ 64)) with
  | some ms => UInt64.ofNat ms
  | none => 0

def idleExit (ms : UInt64) : Option Duration :=
  if ms = 0 then none else some (Duration.fromMillis ms)

def fromEnv (env : Environment) : Except BusError ClientConfig := do
  let endpointRaw ← match env socketVar with
    | some raw => pure raw
    | none => throw (.badRequest "env TOKIMO_BUS_SOCKET is required")
  let authToken ← match env tokenVar with
    | some token => pure token
    | none => throw (.badRequest "env TOKIMO_BUS_TOKEN is required")
  let endpoint ← parseEndpoint endpointRaw
  return ⟨endpoint, authToken, some (Duration.fromSecs 30), idleExit (idleMillis env)⟩

def unix (path token : String) : ClientConfig := ⟨.unixSocket path, token, none, none⟩

/-- The variables of a spawned process: those of the command, then those it inherits. -/
def processEnv (inherited : Environment) (cmd : Command) : Environment :=
  fun name => (cmd.env.reverse.lookup name).or (inherited name)

structure Builder where
  cfg : ClientConfig
  service : Option (String × String)
  methods : List MethodDecl
  handlers : List (String × HandlerId)
  events : List String
  dataPlane : Option DataPlaneSocket

def Builder.new (cfg : ClientConfig) : Builder := ⟨cfg, none, [], [], [], none⟩

def Builder.setService (b : Builder) (name version : String) : Builder :=
  { b with service := some (name, version) }

def Builder.method (b : Builder) (decl : MethodDecl) : Builder :=
  { b with methods := b.methods ++ [decl] }

def Builder.onInvoke (b : Builder) (method : String) (handler : HandlerId) : Builder :=
  { b with handlers := (method, handler) :: b.handlers.filter (fun x => x.1 != method) }

def Builder.publishes (b : Builder) (topic : String) : Builder :=
  { b with events := b.events ++ [topic] }

def Builder.setDataPlane (b : Builder) (socket : DataPlaneSocket) : Builder :=
  { b with dataPlane := some socket }

def undeclared (name : String) : BusError :=
  .badRequest ("handler registered for `" ++ name ++ "` but no MethodDecl declared it")

/-- `connect_with_builder` up to `establish`: the Hello and the handlers of the client. -/
def Builder.connect (b : Builder) (pid : UInt32) :
    Except BusError (HelloRequest × (String → Option HandlerId)) :=
  match b.service with
  | none => .error (.badRequest "service() was not called")
  | some (service, version) =>
    match b.handlers.find? fun x => !b.methods.any fun m => m.name == x.1 with
    | some x => .error (undeclared x.1)
    | none =>
      .ok (⟨ProtocolVersion.current, service, version, pid, b.cfg.authToken, b.methods, b.events,
        b.dataPlane⟩, fun name => b.handlers.lookup name)

variable {env inherited : Environment} {spec : AppSpec} {b : Builder}
  {endpoint token name value : String} {pid : UInt32} {hello : HelloRequest}
  {handlers : String → Option HandlerId}

/-- A value set by `spawn_once`, unless the spec sets the variable as well. -/
def overridden (spec : AppSpec) (name value : String) : String :=
  (spec.env.reverse.lookup name).getD value

theorem processEnv_spawned : processEnv inherited (spawnCommand endpoint token spec) name =
    (spec.env.reverse.lookup name).or
      (([(idleVar, toString (idleMs spec.lifecycle).toNat), (tokenVar, token),
        (socketVar, endpoint)].lookup name).or (inherited name)) := by
  unfold processEnv spawnCommand
  rw [List.reverse_append, List.lookup_append, Option.or_assoc]
  rfl

theorem spawned_socket : processEnv inherited (spawnCommand endpoint token spec) socketVar =
    some (overridden spec socketVar endpoint) := by
  rw [processEnv_spawned]
  unfold overridden
  cases spec.env.reverse.lookup socketVar <;> rfl

theorem spawned_token : processEnv inherited (spawnCommand endpoint token spec) tokenVar =
    some (overridden spec tokenVar token) := by
  rw [processEnv_spawned]
  unfold overridden
  cases spec.env.reverse.lookup tokenVar <;> rfl

theorem spawned_idle : processEnv inherited (spawnCommand endpoint token spec) idleVar =
    some (overridden spec idleVar (toString (idleMs spec.lifecycle).toNat)) := by
  rw [processEnv_spawned]
  unfold overridden
  cases spec.env.reverse.lookup idleVar <;> rfl

theorem fromEnv_found (socket : env socketVar = some endpoint) (auth : env tokenVar = some token) :
    fromEnv env = .ok ⟨.unixSocket endpoint, token, some (Duration.fromSecs 30),
      idleExit (idleMillis env)⟩ := by
  unfold fromEnv
  rw [socket, auth]
  rfl

def Leaves (spec : AppSpec) (name : String) : Prop := ∀ value, (name, value) ∉ spec.env

theorem left_alone (leaves : Leaves spec name) : overridden spec name value = value := by
  have absent : spec.env.reverse.lookup name = none := by
    rw [List.lookup_eq_none_iff]
    rintro ⟨key, value⟩ mem
    simp only [bne_iff_ne, ne_eq]
    rintro rfl
    exact leaves value (List.mem_reverse.mp mem)
  rw [overridden, absent]
  rfl

theorem idleMillis_spawned (leaves : Leaves spec idleVar) :
    idleMillis (processEnv inherited (spawnCommand endpoint token spec)) =
      idleMs spec.lifecycle := by
  unfold idleMillis
  rw [spawned_idle, left_alone leaves, Option.bind_some, parse_toString (UInt64.toNat_lt _)]
  simp

theorem handlers_declared (all : b.handlers.find? (fun x => !b.methods.any fun m => m.name == x.1) =
    none) {h : HandlerId} (found : b.handlers.lookup name = some h) :
    ∃ m ∈ b.methods, m.name = name := by
  obtain ⟨before, after, parts, _⟩ := List.lookup_eq_some_iff.mp found
  have declared := List.find?_eq_none.mp all (name, h) (by rw [parts]; simp)
  simpa using declared

/-- What a builder that connects says in its Hello, and which handlers its client has. -/
theorem connected (built : b.connect pid = .ok (hello, handlers)) :
    hello.authToken = b.cfg.authToken ∧ hello.protocol = ProtocolVersion.current ∧
      (∃ version, b.service = some (hello.service, version)) ∧
      ∀ name h, handlers name = some h → ∃ m ∈ hello.methods, m.name = name := by
  unfold Builder.connect at built
  cases named : b.service with
  | none =>
    rw [named] at built
    cases built
  | some service =>
    rw [named] at built
    cases all : b.handlers.find? fun x => !b.methods.any fun m => m.name == x.1 with
    | some x =>
      rw [all] at built
      cases built
    | none =>
      rw [all] at built
      cases built
      exact ⟨rfl, rfl, ⟨_, rfl⟩, fun name h found => handlers_declared all found⟩

/-- Whatever a spawned process inherits, it finds a configuration: the endpoint and the token that
    `spawn_once` gave it, and the threshold of its spec in whole milliseconds. Only the spec itself
    can come in between. A client built from it sends that token, and declares what it handles. -/
theorem launched_client (endpoint token : String) (spec : AppSpec) (inherited : Environment) :
    ∃ cfg, fromEnv (processEnv inherited (spawnCommand endpoint token spec)) = .ok cfg ∧
      (Leaves spec socketVar → cfg.endpoint = .unixSocket endpoint) ∧
      (Leaves spec idleVar → cfg.idleExit = idleExit (idleMs spec.lifecycle)) ∧
      (Leaves spec tokenVar → ∀ (b : Builder) pid (hello : HelloRequest) handlers, b.cfg = cfg →
        b.connect pid = .ok (hello, handlers) → hello.authToken = token ∧
          hello.protocol = ProtocolVersion.current ∧
          ∀ name h, handlers name = some h → ∃ m ∈ hello.methods, m.name = name) := by
  refine ⟨_, fromEnv_found spawned_socket spawned_token, fun leaves => ?_, fun leaves => ?_,
    fun leaves b pid hello handlers same built => ?_⟩
  · rw [left_alone leaves]
  · exact congrArg idleExit (idleMillis_spawned leaves)
  · obtain ⟨sent, protocol, _, declared⟩ := connected built
    refine ⟨?_, protocol, declared⟩
    rw [sent, same]
    exact left_alone leaves

end TokimoConfig

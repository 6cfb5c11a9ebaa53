import TokimoBus.Broker
import TokimoBus.MessagePack

/-!
How the derived `Serialize` instances present each wire type to `to_vec_named`:
structs as maps from field names, `None` as nil, byte strings as arrays of numbers,
enums by their tag attribute. `toVecNamed` is the encoder that results, and
`Env.standard` the surroundings of a broker with the default configuration.
-/
namespace TokimoWire
open TokimoFrame TokimoOutbound TokimoBroker MessagePack

def optional {α : Type} (value : α → Value) : Option α → Value
  | none => .nil
  | some x => value x

def byteArray (bytes : Bytes) : Value := .array (bytes.map fun b => .uint b.toUInt64)

def versionValue (v : ProtocolVersion) : Value :=
  .map [("major", .uint v.major.toUInt64), ("minor", .uint v.minor.toUInt64)]

def httpMethodName : HttpMethod → String
  | .get => "GET"
  | .post => "POST"
  | .put => "PUT"
  | .patch => "PATCH"
  | .delete => "DELETE"

def methodDeclValue (m : MethodDecl) : Value :=
  .map [("name", .str m.name), ("requires_auth", .bool m.requiresAuth),
    ("streaming", .bool m.streaming), ("http_method", .str (httpMethodName m.httpMethod)),
    ("path", optional .str m.path), ("description", optional .str m.description)]

def dataPlaneValue : DataPlaneSocket → Value
  | .unix path => .map [("kind", .str "unix"), ("path", .str path)]
  | .namedPipe name => .map [("kind", .str "named_pipe"), ("name", .str name)]

def callerValue (c : CallerCtx) : Value :=
  .map [("user_id", optional .str c.userId), ("request_id", .str c.requestId),
    ("workspace", optional .str c.workspace), ("caller_app_id", optional .str c.callerAppId)]

def errorValue : BusError → Value
  | .io message => .map [("Io", .str message)]
  | .codec message => .map [("Codec", .str message)]
  | .frameTooLarge size max =>
    .map [("FrameTooLarge", .map [("size", .uint size), ("max", .uint max.toUInt64)])]
  | .connectionClosed => .str "ConnectionClosed"
  | .protocolMismatch broker client =>
    .map [("ProtocolMismatch",
      .map [("broker", versionValue broker), ("client", versionValue client)])]
  | .invalidAuthToken => .str "InvalidAuthToken"
  | .serviceNotFound service => .map [("ServiceNotFound", .str service)]
  | .methodNotFound service method =>
    .map [("MethodNotFound", .map [("service", .str service), ("method", .str method)])]
  | .unauthorized service method =>
    .map [("Unauthorized", .map [("service", .str service), ("method", .str method)])]
  | .timeout ms => .map [("Timeout", .map [("ms", .uint ms)])]
  | .badRequest message => .map [("BadRequest", .str message)]
  | .internal message => .map [("Internal", .str message)]
  | .app message => .map [("App", .str message)]

def outcomeValue : Outcome → Value
  | .ok bytes => .map [("Ok", byteArray bytes)]
  | .error e => .map [("Err", errorValue e)]

def eventFields (e : Event) : List (String × Value) :=
  [("topic", .str e.topic), ("payload", byteArray e.payload),
    ("from", optional .str e.fromService)]

/-- The internally tagged variants put their name beside their fields. -/
def frameFields : BusFrame → List (String × Value)
  | .hello h =>
    [("kind", .str "hello"), ("protocol", versionValue h.protocol), ("service", .str h.service),
      ("version", .str h.version), ("pid", .uint h.pid.toUInt64),
      ("auth_token", .str h.authToken), ("methods", .array (h.methods.map methodDeclValue)),
      ("events", .array (h.events.map .str)), ("data_plane", optional dataPlaneValue h.dataPlane)]
  | .helloAck a =>
    [("kind", .str "hello_ack"), ("client_id", .uint a.clientId),
      ("heartbeat_interval", .uint a.heartbeatInterval.asMillis)]
  | .ping => [("kind", .str "ping")]
  | .pong => [("kind", .str "pong")]
  | .shutdown => [("kind", .str "shutdown")]
  | .invoke i =>
    [("kind", .str "invoke"), ("req_id", .uint i.reqId), ("method", .str i.method),
      ("payload", byteArray i.payload), ("caller", callerValue i.caller)]
  | .response r =>
    [("kind", .str "response"), ("req_id", .uint r.reqId), ("result", outcomeValue r.result)]
  | .streamOpen s =>
    [("kind", .str "stream_open"), ("req_id", .uint s.reqId), ("method", .str s.method),
      ("caller", callerValue s.caller), ("initial", byteArray s.initial)]
  | .streamChunk s =>
    [("kind", .str "stream_chunk"), ("req_id", .uint s.reqId), ("data", byteArray s.data)]
  | .streamClose s =>
    [("kind", .str "stream_close"), ("req_id", .uint s.reqId),
      ("error", optional errorValue s.error)]
  | .publish e => ("kind", .str "publish") :: eventFields e
  | .subscribe topicPrefix => [("kind", .str "subscribe"), ("topic_prefix", .str topicPrefix)]
  | .unsubscribe topicPrefix =>
    [("kind", .str "unsubscribe"), ("topic_prefix", .str topicPrefix)]
  | .event e => ("kind", .str "event") :: eventFields e

def toVecNamed (f : BusFrame) : Except String Bytes := .ok (Value.map (frameFields f)).bytes

/-- A broker with the default configuration in process 1, whose probes get no answer they
    can read. -/
def standardEnv : Env := ⟨BrokerConfig.default, toVecNamed, fun _ => none, 1⟩

theorem byteArray_length_le (bytes : Bytes) : bytes.length ≤ (byteArray bytes).bytes.length := by
  have bound := array_length_le (bytes.map fun b => Value.uint b.toUInt64)
  simpa [byteArray] using bound

/-- A frame is rejected once one of its byte strings alone exceeds the limit. -/
theorem oversized_of_payload {f : BusFrame} {key : String} {bytes : Bytes}
    (field : (key, byteArray bytes) ∈ frameFields f)
    (large : maxFrameBytes.toNat < bytes.length) : ¬ Fits toVecNamed f := by
  rintro ⟨encoding, eq, short⟩
  simp only [toVecNamed, Except.ok.injEq] at eq
  have inner := byteArray_length_le bytes
  have outer := field_length_le field
  rw [eq] at outer
  omega

end TokimoWire

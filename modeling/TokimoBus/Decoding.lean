import TokimoBus.Records
import TokimoBus.Wire

/-!
How the derived `Deserialize` instances read each wire type: structs by field name, with the
defaults that the fields declare, enums by the name of their variant. The forms that
`to_vec_named` never writes (a struct as the list of its fields, a variant by its number) are
left out. A frame that has been encoded is read back, and fields with a default may be missing.
-/
namespace TokimoDecoding
open TokimoFrame TokimoWire MessagePack Records

def HttpMethod.default : HttpMethod := .post

def versionOf (fields : Fields) : Option ProtocolVersion := do
  let major ← required "major" word16 fields
  let minor ← required "minor" word16 fields
  return ⟨major, minor⟩

def unit : Option Value → Option Unit
  | none => some ()
  | some .nil => some ()
  | _ => none

def httpMethodOf (name : String) (content : Option Value) : Option HttpMethod := do
  unit content
  match name with
  | "GET" => some .get
  | "POST" => some .post
  | "PUT" => some .put
  | "PATCH" => some .patch
  | "DELETE" => some .delete
  | _ => none

def methodDeclOf (fields : Fields) : Option MethodDecl := do
  let name ← required "name" text fields
  let requiresAuth ← defaulted "requires_auth" false flag fields
  let streaming ← defaulted "streaming" false flag fields
  let httpMethod ← defaulted "http_method" HttpMethod.default (variant httpMethodOf) fields
  let path ← defaulted "path" none (nullable text) fields
  let description ← defaulted "description" none (nullable text) fields
  return ⟨name, requiresAuth, streaming, httpMethod, path, description⟩

def dataPlaneOf (name : String) (fields : Fields) : Option DataPlaneSocket :=
  match name with
  | "unix" => (required "path" text fields).map .unix
  | "named_pipe" => (required "name" text fields).map .namedPipe
  | _ => none

def helloRequestOf (fields : Fields) : Option HelloRequest := do
  let protocol ← required "protocol" (record versionOf) fields
  let service ← required "service" text fields
  let version ← required "version" text fields
  let pid ← required "pid" word32 fields
  let authToken ← required "auth_token" text fields
  let methods ← required "methods" (listOf (record methodDeclOf)) fields
  let events ← defaulted "events" [] (listOf text) fields
  let dataPlane ← defaulted "data_plane" none (nullable (tagged "kind" dataPlaneOf)) fields
  return ⟨protocol, service, version, pid, authToken, methods, events, dataPlane⟩

def helloAckOf (fields : Fields) : Option HelloAck := do
  let clientId ← required "client_id" word64 fields
  let ms ← required "heartbeat_interval" word64 fields
  return ⟨clientId, Duration.fromMillis ms⟩

/-- A field of type `Option` may be missing also where it declares no default. -/
def callerCtxOf (fields : Fields) : Option CallerCtx := do
  let userId ← defaulted "user_id" none (nullable text) fields
  let requestId ← required "request_id" text fields
  let workspace ← defaulted "workspace" none (nullable text) fields
  let callerAppId ← defaulted "caller_app_id" none (nullable text) fields
  return ⟨userId, requestId, workspace, callerAppId⟩

def invokeOf (fields : Fields) : Option Invoke := do
  let reqId ← required "req_id" word64 fields
  let method ← required "method" text fields
  let payload ← required "payload" (listOf word8) fields
  let caller ← required "caller" (record callerCtxOf) fields
  return ⟨reqId, method, payload, caller⟩

def busErrorOf (name : String) (content : Option Value) : Option BusError :=
  match name with
  | "Io" => do return .io (← text (← content))
  | "Codec" => do return .codec (← text (← content))
  | "FrameTooLarge" => do
    (← content) |> record fun fields => do
      return .frameTooLarge (← required "size" word64 fields) (← required "max" word32 fields)
  | "ConnectionClosed" => do
    unit content
    return .connectionClosed
  | "ProtocolMismatch" => do
    (← content) |> record fun fields => do
      return .protocolMismatch (← required "broker" (record versionOf) fields)
        (← required "client" (record versionOf) fields)
  | "InvalidAuthToken" => do
    unit content
    return .invalidAuthToken
  | "ServiceNotFound" => do return .serviceNotFound (← text (← content))
  | "MethodNotFound" => do
    (← content) |> record fun fields => do
      return .methodNotFound (← required "service" text fields) (← required "method" text fields)
  | "Unauthorized" => do
    (← content) |> record fun fields => do
      return .unauthorized (← required "service" text fields) (← required "method" text fields)
  | "Timeout" => do
    (← content) |> record fun fields => do return .timeout (← required "ms" word64 fields)
  | "BadRequest" => do return .badRequest (← text (← content))
  | "Internal" => do return .internal (← text (← content))
  | "App" => do return .app (← text (← content))
  | _ => none

def outcomeOf (name : String) (content : Option Value) : Option Outcome :=
  match name with
  | "Ok" => do return .ok (← listOf word8 (← content))
  | "Err" => do return .error (← variant busErrorOf (← content))
  | _ => none

def responseOf (fields : Fields) : Option Response := do
  let reqId ← required "req_id" word64 fields
  let result ← required "result" (variant outcomeOf) fields
  return ⟨reqId, result⟩

def streamOpenOf (fields : Fields) : Option StreamOpen := do
  let reqId ← required "req_id" word64 fields
  let method ← required "method" text fields
  let caller ← required "caller" (record callerCtxOf) fields
  let initial ← defaulted "initial" [] (listOf word8) fields
  return ⟨reqId, method, caller, initial⟩

def streamChunkOf (fields : Fields) : Option StreamChunk := do
  let reqId ← required "req_id" word64 fields
  let data ← required "data" (listOf word8) fields
  return ⟨reqId, data⟩

def streamCloseOf (fields : Fields) : Option StreamClose := do
  let reqId ← required "req_id" word64 fields
  let error ← defaulted "error" none (nullable (variant busErrorOf)) fields
  return ⟨reqId, error⟩

def eventOf (fields : Fields) : Option Event := do
  let topic ← required "topic" text fields
  let payload ← required "payload" (listOf word8) fields
  let fromService ← defaulted "from" none (nullable text) fields
  return ⟨topic, payload, fromService⟩

def busFrameOf (name : String) (fields : Fields) : Option BusFrame :=
  match name with
  | "hello" => (helloRequestOf fields).map .hello
  | "hello_ack" => (helloAckOf fields).map .helloAck
  | "ping" => some .ping
  | "pong" => some .pong
  | "shutdown" => some .shutdown
  | "invoke" => (invokeOf fields).map .invoke
  | "response" => (responseOf fields).map .response
  | "stream_open" => (streamOpenOf fields).map .streamOpen
  | "stream_chunk" => (streamChunkOf fields).map .streamChunk
  | "stream_close" => (streamCloseOf fields).map .streamClose
  | "publish" => (eventOf fields).map .publish
  | "subscribe" => (required "topic_prefix" text fields).map .subscribe
  | "unsubscribe" => (required "topic_prefix" text fields).map .unsubscribe
  | "event" => (eventOf fields).map .event
  | _ => none

def decodeFrame : Value → Option BusFrame := tagged "kind" busFrameOf

theorem version_read (v : ProtocolVersion) : record versionOf (versionValue v) = some v := by
  simp [versionOf, versionValue, required, occurrences]

theorem error_read (e : BusError) : variant busErrorOf (errorValue e) = some e := by
  cases e <;> simp [busErrorOf, errorValue, required, occurrences, unit, version_read]

theorem bytes_read (bytes : Bytes) : listOf word8 (byteArray bytes) = some bytes := by
  simp only [listOf, byteArray]
  induction bytes with
  | nil => rfl
  | cons b rest ih => simp [List.mapM_cons, ih]

theorem outcome_read (r : Outcome) : variant outcomeOf (outcomeValue r) = some r := by
  cases r with
  | ok bytes => simp [outcomeOf, outcomeValue, bytes_read]
  | error e => simp [outcomeOf, outcomeValue, error_read]

theorem httpMethod_read (m : HttpMethod) :
    variant httpMethodOf (.str (httpMethodName m)) = some m := by
  cases m <;> rfl

theorem dataPlane_read (d : DataPlaneSocket) :
    tagged "kind" dataPlaneOf (dataPlaneValue d) = some d := by
  cases d <;> simp [tagged, dataPlaneOf, dataPlaneValue, occurrences, others, required]

theorem texts_read (xs : List String) : listOf text (.array (xs.map .str)) = some xs := by
  simp only [listOf]
  induction xs with
  | nil => rfl
  | cons x rest ih => simp [List.mapM_cons, ih]

def methodDeclDefaults : Path → Bool
  | [.field name] =>
    ["requires_auth", "streaming", "http_method", "path", "description"].contains name
  | _ => false

def callerCtxDefaults : Path → Bool
  | [.field name] => ["workspace", "caller_app_id"].contains name
  | _ => false

def helloRequestDefaults : Path → Bool
  | [.field name] => ["events", "data_plane"].contains name
  | .field name :: .index _ :: rest => name == "methods" && methodDeclDefaults rest
  | _ => false

def invokeDefaults : Path → Bool
  | .field name :: rest => name == "caller" && callerCtxDefaults rest
  | _ => false

def streamOpenDefaults : Path → Bool
  | [.field name] => name == "initial"
  | .field name :: rest => name == "caller" && callerCtxDefaults rest
  | _ => false

def eventDefaults : Path → Bool
  | [.field name] => name == "from"
  | _ => false

/-- The places in the encoding of a frame that are marked `serde(default)`. -/
def defaults : BusFrame → Path → Bool
  | .hello _ => helloRequestDefaults
  | .invoke _ => invokeDefaults
  | .streamOpen _ => streamOpenDefaults
  | .publish _ | .event _ => eventDefaults
  | _ => fun _ => false

def MethodDecl.without (gone : Path → Bool) (m : MethodDecl) : MethodDecl where
  name := m.name
  requiresAuth := if gone [.field "requires_auth"] then false else m.requiresAuth
  streaming := if gone [.field "streaming"] then false else m.streaming
  httpMethod := if gone [.field "http_method"] then HttpMethod.default else m.httpMethod
  path := if gone [.field "path"] then none else m.path
  description := if gone [.field "description"] then none else m.description

def CallerCtx.without (gone : Path → Bool) (c : CallerCtx) : CallerCtx where
  userId := c.userId
  requestId := c.requestId
  workspace := if gone [.field "workspace"] then none else c.workspace
  callerAppId := if gone [.field "caller_app_id"] then none else c.callerAppId

def HelloRequest.without (gone : Path → Bool) (h : HelloRequest) : HelloRequest :=
  { h with
    methods := h.methods.mapIdx fun i m =>
      MethodDecl.without (under (.index i) (under (.field "methods") gone)) m
    events := if gone [.field "events"] then [] else h.events
    dataPlane := if gone [.field "data_plane"] then none else h.dataPlane }

def Invoke.without (gone : Path → Bool) (i : Invoke) : Invoke :=
  { i with caller := CallerCtx.without (under (.field "caller") gone) i.caller }

def StreamOpen.without (gone : Path → Bool) (s : StreamOpen) : StreamOpen :=
  { s with
    caller := CallerCtx.without (under (.field "caller") gone) s.caller
    initial := if gone [.field "initial"] then [] else s.initial }

def Event.without (gone : Path → Bool) (e : Event) : Event :=
  { e with fromService := if gone [.field "from"] then none else e.fromService }

def BusFrame.without (gone : Path → Bool) : BusFrame → BusFrame
  | .hello h => .hello (HelloRequest.without gone h)
  | .invoke i => .invoke (Invoke.without gone i)
  | .streamOpen s => .streamOpen (StreamOpen.without gone s)
  | .publish e => .publish (Event.without gone e)
  | .event e => .event (Event.without gone e)
  | f => f

/-- What comes back of a frame: the heartbeat interval in whole milliseconds, modulo 2^64. -/
def received : BusFrame → BusFrame
  | .helloAck a =>
    .helloAck { a with heartbeatInterval := Duration.fromMillis a.heartbeatInterval.asMillis }
  | f => f

theorem spared {gone marked : Path → Bool} (only : ∀ p, gone p = true → marked p = true)
    {p : Path} (unmarked : marked p = false) : gone p = false := by
  cases out : gone p with
  | false => rfl
  | true =>
    rw [only p out] at unmarked
    cases unmarked

theorem spared_under {gone marked : Path → Bool} (only : ∀ p, gone p = true → marked p = true)
    {name : String} (unmarked : ∀ key p, marked (.field name :: key :: p) = false) (key : Key)
    (p : Path) : under (.field name) gone (key :: p) = false :=
  spared only (unmarked key p)

theorem text_pruned {gone : Path → Bool} (o : Option String) :
    nullable text (prune gone (optional .str o)) = some o := by
  cases o <;> rfl

theorem methodDecl_pruned {gone : Path → Bool}
    (only : ∀ p, gone p = true → methodDeclDefaults p = true) (m : MethodDecl) :
    record methodDeclOf (prune gone (methodDeclValue m)) = some (MethodDecl.without gone m) := by
  have name := spared only (p := [.field "name"]) rfl
  rw [methodDeclValue, prune, record_map, methodDeclOf, required_prune name rfl (text_str _),
    defaulted_prune rfl (flag_bool _), defaulted_prune rfl (flag_bool _),
    defaulted_prune rfl (httpMethod_read _), defaulted_prune rfl (text_pruned _),
    defaulted_prune rfl (text_pruned _)]
  rfl

theorem callerCtx_pruned {gone : Path → Bool}
    (only : ∀ p, gone p = true → callerCtxDefaults p = true) (c : CallerCtx) :
    record callerCtxOf (prune gone (callerValue c)) = some (CallerCtx.without gone c) := by
  have user := spared only (p := [.field "user_id"]) rfl
  have request := spared only (p := [.field "request_id"]) rfl
  rw [callerValue, prune, record_map, callerCtxOf, defaulted_prune rfl (text_pruned _),
    required_prune request rfl (text_str _), defaulted_prune rfl (text_pruned _),
    defaulted_prune rfl (text_pruned _), user]
  rfl

theorem helloRequest_pruned {gone : Path → Bool}
    (only : ∀ p, gone p = true → helloRequestDefaults p = true) (h : HelloRequest) :
    helloRequestOf (pruneFields gone (frameFields (.hello h)).tail) =
      some (HelloRequest.without gone h) := by
  have leaf : ∀ {name : String}, ["events", "data_plane"].contains name = false →
      gone [.field name] = false := fun plain => spared only plain
  have below : ∀ {name : String}, (name == "methods") = false → ∀ key p,
      under (.field name) gone (key :: p) = false := by
    intro name other
    apply spared_under only
    intro key p
    cases key with
    | field => rfl
    | index i => simp [helloRequestDefaults, other]
  have protocol : record versionOf (prune (under (.field "protocol") gone)
      (versionValue h.protocol)) = some h.protocol := by
    rw [prune_keeps (below rfl), version_read]
  have methods : listOf (record methodDeclOf) (prune (under (.field "methods") gone)
      (.array (h.methods.map methodDeclValue))) = some (HelloRequest.without gone h).methods := by
    apply listOf_prune
    intro i m
    apply methodDecl_pruned
    intro p out
    exact only _ out
  have events : listOf text (prune (under (.field "events") gone)
      (.array (h.events.map .str))) = some h.events := by
    rw [prune_keeps (below rfl), texts_read]
  have dataPlane : nullable (tagged "kind" dataPlaneOf) (prune (under (.field "data_plane") gone)
      (optional dataPlaneValue h.dataPlane)) = some h.dataPlane := by
    rw [prune_keeps (below rfl)]
    cases h.dataPlane with
    | none => rfl
    | some d =>
      have solid : dataPlaneValue d ≠ .nil := by cases d <;> simp [dataPlaneValue]
      change nullable _ (dataPlaneValue d) = _
      rw [nullable_some solid, dataPlane_read]
      rfl
  rw [helloRequestOf, required_prune (leaf rfl) rfl protocol,
    required_prune (leaf rfl) rfl (text_str _), required_prune (leaf rfl) rfl (text_str _),
    required_prune (leaf rfl) rfl (word32_uint _), required_prune (leaf rfl) rfl (text_str _),
    required_prune (leaf rfl) rfl methods, defaulted_prune rfl events,
    defaulted_prune rfl dataPlane]
  rfl

theorem caller_pruned {gone marked : Path → Bool}
    (only : ∀ p, gone p = true → marked p = true)
    (inner : ∀ p, marked (.field "caller" :: p) = true → callerCtxDefaults p = true)
    (c : CallerCtx) : record callerCtxOf (prune (under (.field "caller") gone) (callerValue c)) =
      some (CallerCtx.without (under (.field "caller") gone) c) := by
  apply callerCtx_pruned
  intro p out
  exact inner p (only _ out)

theorem invoke_pruned {gone : Path → Bool} (only : ∀ p, gone p = true → invokeDefaults p = true)
    (i : Invoke) : invokeOf (pruneFields gone (frameFields (.invoke i)).tail) =
      some (Invoke.without gone i) := by
  have leaf : ∀ {name : String}, (name == "caller") = false → gone [.field name] = false := by
    intro name other
    apply spared only
    simp [invokeDefaults, other]
  have payload : listOf word8 (prune (under (.field "payload") gone) (byteArray i.payload)) =
      some i.payload := by
    rw [prune_keeps (spared_under only fun _ _ => rfl), bytes_read]
  have caller := caller_pruned only (fun p held => held) i.caller
  have whole : gone [.field "caller"] = false := spared only rfl
  rw [invokeOf, required_prune (leaf rfl) rfl (word64_uint _),
    required_prune (leaf rfl) rfl (text_str _), required_prune (leaf rfl) rfl payload,
    required_prune whole rfl caller]
  rfl

theorem streamOpen_pruned {gone : Path → Bool}
    (only : ∀ p, gone p = true → streamOpenDefaults p = true) (s : StreamOpen) :
    streamOpenOf (pruneFields gone (frameFields (.streamOpen s)).tail) =
      some (StreamOpen.without gone s) := by
  have leaf : ∀ {name : String}, (name == "initial") = false → gone [.field name] = false :=
    fun other => spared only other
  have initial : listOf word8 (prune (under (.field "initial") gone) (byteArray s.initial)) =
      some s.initial := by
    rw [prune_keeps (spared_under only fun _ _ => rfl), bytes_read]
  have caller := caller_pruned only (fun p held => by
    cases p with
    | nil => cases held
    | cons key rest => exact held) s.caller
  rw [streamOpenOf, required_prune (leaf rfl) rfl (word64_uint _),
    required_prune (leaf rfl) rfl (text_str _), required_prune (leaf rfl) rfl caller,
    defaulted_prune rfl initial]
  rfl

theorem event_pruned {gone : Path → Bool} (only : ∀ p, gone p = true → eventDefaults p = true)
    (e : Event) : eventOf (pruneFields gone (eventFields e)) = some (Event.without gone e) := by
  have leaf : ∀ {name : String}, (name == "from") = false → gone [.field name] = false :=
    fun other => spared only other
  have payload : listOf word8 (prune (under (.field "payload") gone) (byteArray e.payload)) =
      some e.payload := by
    rw [prune_keeps (spared_under only fun _ _ => rfl), bytes_read]
  rw [eventOf, required_prune (leaf rfl) rfl (text_str _), required_prune (leaf rfl) rfl payload,
    defaulted_prune rfl (text_pruned _)]
  rfl

theorem response_read (r : Response) :
    responseOf (frameFields (.response r)).tail = some r := by
  simp [responseOf, frameFields, required, occurrences, outcome_read]

theorem streamChunk_read (s : StreamChunk) :
    streamChunkOf (frameFields (.streamChunk s)).tail = some s := by
  simp [streamChunkOf, frameFields, required, occurrences, bytes_read]

theorem error_solid (e : BusError) : errorValue e ≠ .nil := by
  cases e <;> simp [errorValue]

theorem streamClose_read (s : StreamClose) :
    streamCloseOf (frameFields (.streamClose s)).tail = some s := by
  have error : nullable (variant busErrorOf) (optional errorValue s.error) = some s.error := by
    cases s.error with
    | none => rfl
    | some e =>
      change nullable _ (errorValue e) = _
      rw [nullable_some (error_solid e), error_read]
      rfl
  simp [streamCloseOf, frameFields, required, defaulted, occurrences, error]

def frameKind : BusFrame → String
  | .hello _ => "hello"
  | .helloAck _ => "hello_ack"
  | .ping => "ping"
  | .pong => "pong"
  | .shutdown => "shutdown"
  | .invoke _ => "invoke"
  | .response _ => "response"
  | .streamOpen _ => "stream_open"
  | .streamChunk _ => "stream_chunk"
  | .streamClose _ => "stream_close"
  | .publish _ => "publish"
  | .subscribe _ => "subscribe"
  | .unsubscribe _ => "unsubscribe"
  | .event _ => "event"

theorem frame_tagged {gone : Path → Bool} (f : BusFrame) (kept : gone [.field "kind"] = false) :
    decodeFrame (prune gone (.map (frameFields f))) =
      busFrameOf (frameKind f) (pruneFields gone (frameFields f).tail) := by
  have parts : frameFields f = ("kind", .str (frameKind f)) :: (frameFields f).tail := by
    cases f <;> rfl
  rw [parts]
  apply tagged_prune kept
  cases f <;> rfl

/-- A frame is read back from its encoding, also when fields with a default are missing. -/
theorem frame_pruned {gone : Path → Bool} (f : BusFrame)
    (only : ∀ p, gone p = true → defaults f p = true) :
    decodeFrame (prune gone (.map (frameFields f))) =
      some (BusFrame.without gone (received f)) := by
  have kind : gone [.field "kind"] = false := by
    apply spared only
    cases f <;> rfl
  have whole : defaults f = (fun _ => false) → ∀ fields, pruneFields gone fields = fields := by
    intro plain
    apply pruneFields_keeps
    intro key p
    exact spared only (by rw [plain])
  rw [frame_tagged f kind]
  cases f with
  | hello h =>
    simp only [frameKind, busFrameOf, helloRequest_pruned only]
    rfl
  | invoke i =>
    simp only [frameKind, busFrameOf, invoke_pruned only]
    rfl
  | streamOpen s =>
    simp only [frameKind, busFrameOf, streamOpen_pruned only]
    rfl
  | publish e | event e =>
    have read := event_pruned only e
    simp only [frameKind, busFrameOf, frameFields, List.tail_cons, read]
    rfl
  | response r =>
    simp only [frameKind, busFrameOf, whole rfl, response_read]
    rfl
  | streamChunk s =>
    simp only [frameKind, busFrameOf, whole rfl, streamChunk_read]
    rfl
  | streamClose s =>
    simp only [frameKind, busFrameOf, whole rfl, streamClose_read]
    rfl
  | helloAck | subscribe | unsubscribe =>
    rw [whole rfl]
    rfl
  | ping | pong | shutdown => rfl

theorem without_nothing (f : BusFrame) : BusFrame.without (fun _ => false) f = f := by
  cases f with
  | hello h =>
    have methods : (h.methods.mapIdx fun i m => MethodDecl.without
        (under (.index i) (under (.field "methods") fun _ => false)) m) = h.methods := by
      apply List.ext_getElem
      · simp
      · intro i _ _
        simp [MethodDecl.without, under]
    simp only [BusFrame.without, HelloRequest.without, methods]
    rfl
  | _ => rfl

theorem frame_read (f : BusFrame) : decodeFrame (.map (frameFields f)) = some (received f) := by
  have read := @frame_pruned (fun _ => false) f (fun _ out => by cases out)
  rwa [prune_keeps fun _ _ => rfl, without_nothing] at read

/-- Every frame is read back from its encoding, up to the precision of a heartbeat interval, and
    if any of the fields marked `serde(default)` are taken out of it, just these are at their
    defaults. -/
theorem frame_round_trip (f : BusFrame) :
    decodeFrame (.map (frameFields f)) = some (received f) ∧
    ∀ gone : Path → Bool, (∀ p, gone p = true → defaults f p = true) →
      decodeFrame (prune gone (.map (frameFields f))) =
        some (BusFrame.without gone (received f)) := by
  constructor
  · exact frame_read f
  · intro gone only
    exact frame_pruned f only

def playMethod : MethodDecl := ⟨"play", true, false, .get, some "play/now", none⟩

def playHello : HelloRequest :=
  ⟨ProtocolVersion.current, "video", "0.1.0", 7, "token", [playMethod], ["video.scanned"],
    some (.unix "/run/video.sock")⟩

def eventsAndPath : Path → Bool := fun p =>
  p == [.field "events"] || p == [.field "methods", .index 0, .field "path"]

theorem hello_without_events_and_path :
    decodeFrame (prune eventsAndPath (.map (frameFields (.hello playHello)))) =
      some (.hello { playHello with methods := [{ playMethod with path := none }], events := [] }) := by
  apply (frame_round_trip (.hello playHello)).2
  intro p out
  simp only [eventsAndPath, Bool.or_eq_true, beq_iff_eq] at out
  rcases out with rfl | rfl
  · rfl
  · rfl

end TokimoDecoding

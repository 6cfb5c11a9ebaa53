import Mathlib.Algebra.Ring.Nat
import Mathlib.Data.List.Basic
import Mathlib.Tactic.DeriveFintype

/-!
Wire frame definitions: every frame that travels between the broker and an app,
with all the fields it carries. Byte strings are lists of bytes; a `Duration` is
a number of nanoseconds below the bound of the source's 64-bit seconds.
-/
namespace TokimoFrame

abbrev Bytes := List UInt8

structure Duration where
  nanos : Nat
  bounded : nanos < 2 ^ 64 * 1000000000
  deriving DecidableEq, Repr

def Duration.zero : Duration := ⟨0, by decide⟩

def Duration.fromSecs (secs : UInt64) : Duration :=
  ⟨secs.toNat * 1000000000, by have := secs.toNat_lt; omega⟩

def Duration.isZero (d : Duration) : Bool := d.nanos == 0

def Duration.asMillis (d : Duration) : UInt64 := UInt64.ofNat (d.nanos / 1000000)

def Duration.fromMillis (ms : UInt64) : Duration :=
  ⟨ms.toNat * 1000000, by have := ms.toNat_lt; omega⟩

structure ProtocolVersion where
  major : UInt16
  minor : UInt16
  deriving DecidableEq, Repr

def ProtocolVersion.current : ProtocolVersion := ⟨1, 0⟩

inductive HttpMethod where
  | get | post | put | patch | delete
  deriving DecidableEq, Repr

structure MethodDecl where
  name : String
  requiresAuth : Bool
  streaming : Bool
  httpMethod : HttpMethod
  path : Option String
  description : Option String
  deriving DecidableEq, Repr

inductive DataPlaneSocket where
  | unix (path : String)
  | namedPipe (name : String)
  deriving DecidableEq, Repr

structure HelloRequest where
  protocol : ProtocolVersion
  service : String
  version : String
  pid : UInt32
  authToken : String
  methods : List MethodDecl
  events : List String
  dataPlane : Option DataPlaneSocket
  deriving DecidableEq, Repr

structure HelloAck where
  clientId : UInt64
  heartbeatInterval : Duration
  deriving DecidableEq, Repr

structure CallerCtx where
  userId : Option String
  requestId : String
  workspace : Option String
  callerAppId : Option String
  deriving DecidableEq, Repr

def CallerCtx.default : CallerCtx := ⟨none, "", none, none⟩

inductive BusError where
  | io (message : String)
  | codec (message : String)
  | frameTooLarge (size : UInt64) (max : UInt32)
  | connectionClosed
  | protocolMismatch (broker client : ProtocolVersion)
  | invalidAuthToken
  | serviceNotFound (service : String)
  | methodNotFound (service method : String)
  | unauthorized (service method : String)
  | timeout (ms : UInt64)
  | badRequest (message : String)
  | internal (message : String)
  | app (message : String)
  deriving DecidableEq, Repr

abbrev Outcome := Except BusError Bytes

instance : DecidableEq Outcome
  | .ok a, .ok b => decidable_of_iff (a = b) (by simp)
  | .error a, .error b => decidable_of_iff (a = b) (by simp)
  | .ok _, .error _ => .isFalse (by simp)
  | .error _, .ok _ => .isFalse (by simp)

structure Invoke where
  reqId : UInt64
  method : String
  payload : Bytes
  caller : CallerCtx
  deriving DecidableEq, Repr

structure Response where
  reqId : UInt64
  result : Outcome
  deriving DecidableEq

structure StreamOpen where
  reqId : UInt64
  method : String
  caller : CallerCtx
  initial : Bytes
  deriving DecidableEq, Repr

structure StreamChunk where
  reqId : UInt64
  data : Bytes
  deriving DecidableEq, Repr

structure StreamClose where
  reqId : UInt64
  error : Option BusError
  deriving DecidableEq, Repr

structure Event where
  topic : String
  payload : Bytes
  fromService : Option String
  deriving DecidableEq, Repr

inductive BusFrame where
  | hello (h : HelloRequest)
  | helloAck (a : HelloAck)
  | ping
  | pong
  | shutdown
  | invoke (i : Invoke)
  | response (r : Response)
  | streamOpen (s : StreamOpen)
  | streamChunk (s : StreamChunk)
  | streamClose (s : StreamClose)
  | publish (e : Event)
  | subscribe (topicPrefix : String)
  | unsubscribe (topicPrefix : String)
  | event (e : Event)
  deriving DecidableEq

end TokimoFrame

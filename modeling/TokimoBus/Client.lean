import TokimoBus.Broker
import TokimoBus.RequestTable

/-!
One `BusClient` as a transition system: its handshake, `run_connection` with its reader
loop and writer task, the tasks of `dispatch_invoke`, and the calls of `invoke`. Invokes
and tasks are named by opaque numbers, registered handlers too; the `Arc`s of the client
object are counted by who holds one. The frames it reads are arbitrary.
-/
namespace TokimoClient
open TokimoFrame TokimoOutbound TokimoBroker LabelledRuns

abbrev InvokeId := Nat
abbrev TaskId := Nat

structure InvokeArgs where
  service : String
  method : String
  payload : Bytes
  caller : CallerCtx
  deriving DecidableEq

def InvokeArgs.unused : InvokeArgs := ⟨"", "", [], CallerCtx.default⟩

def InvokeArgs.frame (x : InvokeArgs) (r : UInt64) : Invoke :=
  ⟨r, x.service ++ "." ++ x.method, x.payload, x.caller⟩

inductive InvokePhase where
  | unused
  | start
  | register (r : UInt64)
  | send (r : UInt64)
  | await (r : UInt64)
  | done (result : Outcome)
  | cancelled
  deriving DecidableEq

def InvokePhase.active : InvokePhase → Bool
  | .unused | .done _ | .cancelled => false
  | _ => true

inductive TaskPhase where
  | unused
  | spawned (inv : Invoke)
  | running (inv : Invoke) (h : HandlerId)
  | reply (r : UInt64) (result : Outcome)
  | finished
  deriving DecidableEq

def TaskPhase.active : TaskPhase → Bool
  | .unused | .finished => false
  | _ => true

/-- Where `establish`, then `run_connection`, stands. -/
inductive Runner where
  | unconnected
  | greeting
  | failed (e : BusError)
  | connected
  | reading
  | stopping
  | aborting
  | finished
  deriving DecidableEq

def Runner.holdsClient : Runner → Bool
  | .connected | .reading | .stopping | .aborting => true
  | _ => false

structure Client where
  hello : HelloRequest
  handlers : String → Option HandlerId
  runner : Runner
  out : Outbound
  pending : UInt64 → Option InvokeId
  nextReqId : UInt64
  shutdownFired : Bool
  appHolds : Bool
  args : InvokeId → InvokeArgs
  invokePhase : InvokeId → InvokePhase
  reply : InvokeId → Option Response
  task : TaskId → TaskPhase

def Client.new (hello : HelloRequest) (handlers : String → Option HandlerId) : Client where
  hello := hello
  handlers := handlers
  runner := .unconnected
  out := Outbound.fresh
  pending := fun _ => none
  nextReqId := 1
  shutdownFired := false
  appHolds := false
  args := fun _ => InvokeArgs.unused
  invokePhase := fun _ => .unused
  reply := fun _ => none
  task := fun _ => .unused

def Client.setRunner (c : Client) (r : Runner) : Client := { c with runner := r }

def Client.setOut (c : Client) (o : Outbound) : Client := { c with out := o }

def Client.push (c : Client) (f : BusFrame) : Client := c.setOut (c.out.push f)

def Client.setPending (c : Client) (r : UInt64) (i : Option InvokeId) : Client :=
  { c with pending := Function.update c.pending r i }

def Client.takeReqId (c : Client) : Client := { c with nextReqId := c.nextReqId + 1 }

def Client.setInvokePhase (c : Client) (i : InvokeId) (p : InvokePhase) : Client :=
  { c with invokePhase := Function.update c.invokePhase i p }

def Client.begin (c : Client) (i : InvokeId) (x : InvokeArgs) : Client :=
  { c.setInvokePhase i .start with args := Function.update c.args i x }

def Client.setTask (c : Client) (t : TaskId) (p : TaskPhase) : Client :=
  { c with task := Function.update c.task t p }

def Client.setHolds (c : Client) (holds : Bool) : Client := { c with appHolds := holds }

def Client.shutdown (c : Client) : Client := { c with shutdownFired := true }

def Client.wake (c : Client) (hit : Option InvokeId) (resp : Response) : Client :=
  { c with
    reply := match hit with
      | some i => if (c.invokePhase i).active then Function.update c.reply i (some resp) else c.reply
      | none => c.reply }

/-- Somebody holds the client object, and with it the pending table. -/
def Client.Owned (c : Client) : Prop :=
  c.runner.holdsClient = true ∨ (c.runner = .finished ∧ c.out.writer ≠ .ended) ∨
    c.appHolds = true ∨ (∃ t, (c.task t).active = true) ∨ ∃ i, (c.invokePhase i).active = true

def Client.SenderAlive (c : Client) (i : InvokeId) : Prop := (∃ r, c.pending r = some i) ∧ c.Owned

inductive ClientAct where
  -- `establish`
  | greet (f : BusFrame)
  | greetBroken (cut : Bytes)
  | acked (a : HelloAck)
  | refused (f : Option BusFrame) (e : BusError)
  | unread (e : BusError)
  | run
  -- the reader loop and `handle_inbound`
  | ping
  | pingClosed
  | shutdownFrame
  | invoke (inv : Invoke) (t : TaskId)
  | response (r : Response) (hit : Option InvokeId)
  | ignore (f : BusFrame)
  | hangup
  | stop
  | finish
  | writer (x : WriterAct)
  -- `dispatch_invoke`
  | handle (t : TaskId) (inv : Invoke) (h : HandlerId)
  | unhandled (t : TaskId) (inv : Invoke)
  | handled (t : TaskId) (inv : Invoke) (h : HandlerId) (result : Outcome)
  | reply (t : TaskId) (r : Response)
  | replyClosed (t : TaskId)
  -- `invoke`
  | begin (i : InvokeId) (x : InvokeArgs)
  | number (i : InvokeId) (r : UInt64)
  | register (i : InvokeId) (r : UInt64)
  | send (i : InvokeId) (inv : Invoke)
  | sendClosed (i : InvokeId)
  | complete (i : InvokeId) (r : Response)
  | senderGone (i : InvokeId)
  | cancel (i : InvokeId)
  -- the rest of the app
  | publish (topic : String) (payload : Bytes)
  | subscribe (topicPrefix : String)
  | unsent
  | shutdown
  | release
  deriving DecidableEq

/-- The error that `establish` returns for a first frame other than HelloAck. -/
def refusal (debug : BusFrame → String) : Option BusFrame → Option BusError
  | some (.helloAck _) => none
  | some (.response r) =>
    some (match r.result with
      | .error e => e
      | .ok _ => .internal "broker rejected Hello without explaining")
  | some other => some (.internal ("expected HelloAck, got " ++ debug other))
  | none => some .connectionClosed

def Ignored : BusFrame → Prop
  | .ping | .shutdown | .invoke _ | .response _ => False
  | _ => True

inductive ClientStep (toVecNamed : Encoder) (debug : BusFrame → String) :
    Client → ClientAct → Client → Prop where
  | greet {c : Client} (here : c.runner = .unconnected)
      (fits : Fits toVecNamed (.hello c.hello)) :
      ClientStep toVecNamed debug c (.greet (.hello c.hello))
        ((c.setOut (c.out.direct (.hello c.hello))).setRunner .greeting)
  | greetBroken {c : Client} {cut : Bytes} {e : BusError} (here : c.runner = .unconnected)
      (part : cut <+: frameBytes toVecNamed (.hello c.hello)) :
      ClientStep toVecNamed debug c (.greetBroken cut)
        ((c.setOut (c.out.tear cut)).setRunner (.failed e))
  -- the client object is made, and `build` returns an `Arc` of it
  | acked {c : Client} {a : HelloAck} (here : c.runner = .greeting) :
      ClientStep toVecNamed debug c (.acked a) ((c.setHolds true).setRunner .connected)
  | refused {c : Client} {f : Option BusFrame} {e : BusError} (here : c.runner = .greeting)
      (cause : refusal debug f = some e) :
      ClientStep toVecNamed debug c (.refused f e) (c.setRunner (.failed e))
  -- the read of the reply fails
  | unread {c : Client} {e : BusError} (here : c.runner = .greeting) :
      ClientStep toVecNamed debug c (.unread e) (c.setRunner (.failed e))
  | run {c : Client} (here : c.runner = .connected) :
      ClientStep toVecNamed debug c .run ((c.setOut c.out.spawn).setRunner .reading)
  | ping {c : Client} (here : c.runner = .reading) (alive : c.out.IsOpen) :
      ClientStep toVecNamed debug c .ping (c.push .pong)
  | pingClosed {c : Client} (here : c.runner = .reading) (closed : ¬ c.out.IsOpen) :
      ClientStep toVecNamed debug c .pingClosed c
  | shutdownFrame {c : Client} (here : c.runner = .reading) :
      ClientStep toVecNamed debug c .shutdownFrame c.shutdown
  | invoke {c : Client} {inv : Invoke} {t : TaskId} (here : c.runner = .reading)
      (new : c.task t = .unused) :
      ClientStep toVecNamed debug c (.invoke inv t) (c.setTask t (.spawned inv))
  | response {c : Client} {r : Response} {hit : Option InvokeId} (here : c.runner = .reading)
      (found : hit = c.pending r.reqId) :
      ClientStep toVecNamed debug c (.response r hit) ((c.setPending r.reqId none).wake hit r)
  | ignore {c : Client} {f : BusFrame} (here : c.runner = .reading) (other : Ignored f) :
      ClientStep toVecNamed debug c (.ignore f) c
  | hangup {c : Client} (here : c.runner = .reading) :
      ClientStep toVecNamed debug c .hangup (c.setRunner .stopping)
  | stop {c : Client} (here : c.runner = .stopping) :
      ClientStep toVecNamed debug c .stop (c.shutdown.setRunner .aborting)
  | finish {c : Client} (here : c.runner = .aborting) :
      ClientStep toVecNamed debug c .finish ((c.setOut c.out.abort).setRunner .finished)
  | writer {c : Client} {x : WriterAct} {o : Outbound} (one : WriterStep toVecNamed c.out x o) :
      ClientStep toVecNamed debug c (.writer x) (c.setOut o)
  | handle {c : Client} {t : TaskId} {inv : Invoke} {h : HandlerId}
      (here : c.task t = .spawned inv) (found : c.handlers inv.method = some h) :
      ClientStep toVecNamed debug c (.handle t inv h) (c.setTask t (.running inv h))
  | unhandled {c : Client} {t : TaskId} {inv : Invoke} (here : c.task t = .spawned inv)
      (absent : c.handlers inv.method = none) :
      ClientStep toVecNamed debug c (.unhandled t inv)
        (c.setTask t (.reply inv.reqId (.error (.methodNotFound c.hello.service inv.method))))
  | handled {c : Client} {t : TaskId} {inv : Invoke} {h : HandlerId} {result : Outcome}
      (here : c.task t = .running inv h) :
      ClientStep toVecNamed debug c (.handled t inv h result)
        (c.setTask t (.reply inv.reqId result))
  | reply {c : Client} {t : TaskId} {r : UInt64} {result : Outcome}
      (here : c.task t = .reply r result) (alive : c.out.IsOpen) :
      ClientStep toVecNamed debug c (.reply t ⟨r, result⟩)
        ((c.push (.response ⟨r, result⟩)).setTask t .finished)
  | replyClosed {c : Client} {t : TaskId} {r : UInt64} {result : Outcome}
      (here : c.task t = .reply r result) (closed : ¬ c.out.IsOpen) :
      ClientStep toVecNamed debug c (.replyClosed t) (c.setTask t .finished)
  | begin {c : Client} {i : InvokeId} {x : InvokeArgs} (new : c.invokePhase i = .unused)
      (alive : c.Owned) : ClientStep toVecNamed debug c (.begin i x) (c.begin i x)
  | number {c : Client} {i : InvokeId} (here : c.invokePhase i = .start) :
      ClientStep toVecNamed debug c (.number i c.nextReqId)
        (c.takeReqId.setInvokePhase i (.register c.nextReqId))
  | register {c : Client} {i : InvokeId} {r : UInt64} (here : c.invokePhase i = .register r) :
      ClientStep toVecNamed debug c (.register i r)
        ((c.setPending r (some i)).setInvokePhase i (.send r))
  | send {c : Client} {i : InvokeId} {r : UInt64} (here : c.invokePhase i = .send r)
      (alive : c.out.IsOpen) :
      ClientStep toVecNamed debug c (.send i ((c.args i).frame r))
        ((c.push (.invoke ((c.args i).frame r))).setInvokePhase i (.await r))
  | sendClosed {c : Client} {i : InvokeId} {r : UInt64} (here : c.invokePhase i = .send r)
      (closed : ¬ c.out.IsOpen) :
      ClientStep toVecNamed debug c (.sendClosed i)
        (c.setInvokePhase i (.done (.error .connectionClosed)))
  | complete {c : Client} {i : InvokeId} {r : UInt64} {resp : Response}
      (here : c.invokePhase i = .await r) (value : c.reply i = some resp) :
      ClientStep toVecNamed debug c (.complete i resp) (c.setInvokePhase i (.done resp.result))
  | senderGone {c : Client} {i : InvokeId} {r : UInt64} (here : c.invokePhase i = .await r)
      (empty : c.reply i = none) (gone : ¬ c.SenderAlive i) :
      ClientStep toVecNamed debug c (.senderGone i)
        (c.setInvokePhase i (.done (.error .connectionClosed)))
  | cancelStart {c : Client} {i : InvokeId} (here : c.invokePhase i = .start) :
      ClientStep toVecNamed debug c (.cancel i) (c.setInvokePhase i .cancelled)
  | cancelAwait {c : Client} {i : InvokeId} {r : UInt64} (here : c.invokePhase i = .await r) :
      ClientStep toVecNamed debug c (.cancel i) (c.setInvokePhase i .cancelled)
  | publish {c : Client} {topic : String} {payload : Bytes} (held : c.Owned)
      (alive : c.out.IsOpen) :
      ClientStep toVecNamed debug c (.publish topic payload)
        (c.push (.publish ⟨topic, payload, none⟩))
  | subscribe {c : Client} {p : String} (held : c.Owned) (alive : c.out.IsOpen) :
      ClientStep toVecNamed debug c (.subscribe p) (c.push (.subscribe p))
  | unsent {c : Client} (held : c.Owned) (closed : ¬ c.out.IsOpen) :
      ClientStep toVecNamed debug c .unsent c
  | shutdown {c : Client} (held : c.Owned) : ClientStep toVecNamed debug c .shutdown c.shutdown
  | release {c : Client} (held : c.appHolds = true) :
      ClientStep toVecNamed debug c .release (c.setHolds false)

end TokimoClient

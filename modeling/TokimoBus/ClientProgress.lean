import TokimoBus.ClientFacts

/-!
What an undisturbed client achieves: it joins a broker, queues an invoke under its next
number, takes the Response for it, and ends with its connection.
-/
namespace TokimoClient
open TokimoFrame TokimoOutbound TokimoBroker LabelledRuns
variable {toVecNamed : Encoder} {debug : BusFrame → String} {c : Client} {hello : HelloRequest}
  {handlers : String → Option HandlerId} {i : InvokeId} {x : InvokeArgs}

def joinActs (hello : HelloRequest) (a : HelloAck) : List ClientAct :=
  [.greet (.hello hello), .acked a, .run]

def Client.joined (hello : HelloRequest) (handlers : String → Option HandlerId) : Client :=
  { Client.new hello handlers with
    runner := .reading
    out := (Outbound.fresh.direct (.hello hello)).spawn
    appHolds := true }

theorem client_joins (a : HelloAck) (fits : Fits toVecNamed (.hello hello)) :
    ClientRun toVecNamed debug hello handlers (joinActs hello a) (Client.joined hello handlers) := by
  have run : ClientRun toVecNamed debug hello handlers [] (Client.new hello handlers) := Run.nil
  have run := run.snoc (ClientStep.greet rfl fits)
  have run := run.snoc (@ClientStep.acked _ _ _ a rfl)
  exact run.snoc (ClientStep.run rfl)

def Client.invoking (c : Client) (i : InvokeId) (x : InvokeArgs) (p : UInt64 → InvokePhase) :
    Client :=
  (c.takeReqId.begin i x).setInvokePhase i (p c.nextReqId)

def registerActs (i : InvokeId) (x : InvokeArgs) (r : UInt64) : List ClientAct :=
  [.begin i x, .number i r, .register i r]

def Client.listing (c : Client) (i : InvokeId) (x : InvokeArgs) : Client :=
  (c.setPending c.nextReqId (some i)).invoking i x .send

theorem invoke_registers (new : c.invokePhase i = .unused) (owned : c.Owned) :
    Run (ClientStep toVecNamed debug) c (registerActs i x c.nextReqId) (c.listing i x) := by
  have run := run_single (@ClientStep.begin toVecNamed debug c i x new owned)
  have run := run.snoc (@ClientStep.number _ _ _ i (by simp [Client.begin, Client.setInvokePhase]))
  have run := run.snoc (@ClientStep.register _ _ _ i c.nextReqId
    (by simp [Client.begin, Client.setInvokePhase]))
  have same : c.listing i x = (((c.begin i x).takeReqId.setInvokePhase i (.register
      c.nextReqId)).setPending c.nextReqId (some i)).setInvokePhase i (.send c.nextReqId) := by
    simp [Client.listing, Client.invoking, Client.begin, Client.setInvokePhase, Client.setPending,
      Client.takeReqId]
  rw [same]
  exact run

def queueActs (i : InvokeId) (x : InvokeArgs) (r : UInt64) : List ClientAct :=
  registerActs i x r ++ [ClientAct.send i (x.frame r)]

def Client.queued (c : Client) (i : InvokeId) (x : InvokeArgs) : Client :=
  ((c.setPending c.nextReqId (some i)).push (.invoke (x.frame c.nextReqId))).invoking i x .await

theorem send_queues (alive : c.out.IsOpen) :
    ClientStep toVecNamed debug (c.listing i x) (.send i (x.frame c.nextReqId)) (c.queued i x) := by
  have sent := @ClientStep.send toVecNamed debug (c.listing i x) i c.nextReqId
    (by simp [Client.listing, Client.invoking, Client.setInvokePhase, Client.setPending]) alive
  have args : (c.listing i x).args i = x := by
    simp [Client.listing, Client.invoking, Client.setInvokePhase, Client.begin]
  rw [args] at sent
  have same : c.queued i x = ((c.listing i x).push (.invoke (x.frame
      c.nextReqId))).setInvokePhase i (.await c.nextReqId) := by
    simp [Client.queued, Client.listing, Client.invoking, Client.begin, Client.setInvokePhase,
      Client.setPending, Client.takeReqId, Client.push, Client.setOut]
  rw [same]
  exact sent

theorem invoke_queues (new : c.invokePhase i = .unused) (owned : c.Owned)
    (alive : c.out.IsOpen) :
    Run (ClientStep toVecNamed debug) c (queueActs i x c.nextReqId) (c.queued i x) :=
  (invoke_registers new owned).snoc (send_queues alive)

def Client.answered (c : Client) (i : InvokeId) (resp : Response) : Client :=
  ((c.setPending resp.reqId none).wake (some i) resp).setInvokePhase i (.done resp.result)

theorem response_completes {resp : Response} (reading : c.runner = .reading)
    (waiting : c.invokePhase i = .await resp.reqId) (listed : c.pending resp.reqId = some i) :
    Run (ClientStep toVecNamed debug) c [.response resp (some i), .complete i resp]
      (c.answered i resp) := by
  have run := run_single (@ClientStep.response toVecNamed debug c resp _ reading listed.symm)
  have value : ((c.setPending resp.reqId none).wake (some i) resp).reply i = some resp := by
    simp [Client.wake, Client.setPending, waiting, InvokePhase.active]
  exact run.snoc (ClientStep.complete waiting value)

def endActs : List ClientAct := [.hangup, .stop]

def Client.ending (c : Client) : Client := c.shutdown.setRunner .aborting

/-- The end of `run_connection`, up to the abort of the writer task. -/
theorem connection_ends (reading : c.runner = .reading) :
    Run (ClientStep toVecNamed debug) c endActs c.ending := by
  have run := run_single (@ClientStep.hangup toVecNamed debug c reading)
  exact run.snoc (ClientStep.stop rfl)

end TokimoClient

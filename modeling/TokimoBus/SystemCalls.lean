import TokimoBus.SystemStreams
import TokimoBus.CallResults

/-!
Which frame of the system is whose. A process is registered under the name of its own
Hello. While no counter has wrapped round, an Invoke on a connection names the invoke of
the process, or the call of the broker, that queued it, and a Response the reply.
-/
namespace TokimoSystem
open TokimoFrame TokimoOutbound TokimoBroker TokimoSession TokimoClient TokimoChannel
open TokimoIdentity TokimoCorrelation TokimoResults TokimoWriter
open LabelledRuns WrappingCounter RequestTable Pipes
variable {env : Env} {debug : BusFrame → String} {procs : Processes} {s : System}
  {acts : List SystemAct} {j k : ConnId} {c c' : CallId} {i i' : InvokeId} {t t' : TaskId}
  {inv : Invoke} {resp : Response} {m n : Nat}

theorem broker_once {a b : Act}
    (once : ∀ {m n : Nat}, TokimoSession.At (brokerActs acts) m a →
      TokimoSession.At (brokerActs acts) n b → m = n)
    (here : acts[m]? = some (.broker a)) (there : acts[n]? = some (.broker b)) : m = n :=
  part_once once here rfl there rfl

theorem client_once {a b : ClientAct}
    (once : ∀ {m n : Nat}, TokimoClient.At (clientActs k acts) m a →
      TokimoClient.At (clientActs k acts) n b → m = n)
    (here : acts[m]? = some (.client k a)) (there : acts[n]? = some (.client k b)) : m = n :=
  part_once once here (by simp [SystemAct.ofClient]) there (by simp [SystemAct.ofClient])

/-- The Hello that a connection has sent, and that was not turned down for its version. -/
def greeted : Phase → Option HelloRequest
  | .check h => some h
  | .admitted h => some h
  | .numbered h _ => some h
  | .live s _ => some s.hello
  | _ => none

theorem step_greeted {w w' : World} {a : Act} {h : HelloRequest} (step : Step env w a w')
    (now : greeted (w'.phase k) = some h) : greeted (w.phase k) = some h ∨ a = .hello k h := by
  cases step with
  | @hello l h' here =>
    rcases moved_to now with old | ⟨rfl, same⟩
    · exact Or.inl old
    · unfold helloPhase at same
      split at same
      · cases same
      · cases same
        exact Or.inr rfl
  | @consume l h' ok here =>
    refine Or.inl (moved_from here ?_ now)
    split <;> simp [greeted]
  | @generate l h' id s here named =>
    exact Or.inl (moved_from here (by simp [greeted, named]) now)
  | accept here | noHello here | reject here | rejectBroken here | clientId here
  | publish here | ack here | ackBroken here | rollback here | attach here
  | probe here | fanout here | target here | deliver here | undelivered here | fanned here
  | hangup here | detach here | check here | forget here | removeIf here | abort here =>
    exact Or.inl (moved_from here (by simp [greeted]) now)
  | _ => exact Or.inl now

theorem hello_read (run : SystemRun env debug procs acts s) {h : HelloRequest}
    (mem : .broker (.hello k h) ∈ acts) : h = procs.hello k := by
  have part := client_run run k
  have found : .hello h ∈ acts.filterMap (upward env debug procs k).reads :=
    List.mem_filterMap.mpr ⟨_, mem, upward_reads.mpr rfl⟩
  have many := List.count_pos_iff.mpr found
  have read := count_read_le (upward env debug procs k) run (.hello h)
  have written : acts.filterMap (upward env debug procs k).writes =
      (clientActs k acts).filterMap clientWrites := (clientActs_filterMap _ _ _).symm
  have stream := streamed_le (client_channel_run part) (.hello h)
  rw [client_streamed, client_pushed, ← written] at stream
  have queued : ((clientActs k acts).filterMap ClientAct.sends).count (.hello h) = 0 := by
    rw [List.count_eq_zero]
    intro sent
    obtain ⟨b, _, same⟩ := List.mem_filterMap.mp sent
    cases b <;> simp [ClientAct.sends] at same
  have direct : 0 < (directed (clientChannel (clientActs k acts))).count (.hello h) := by omega
  have greeting := greet_hello part (client_greets (List.count_pos_iff.mp direct))
  simp only [BusFrame.hello.injEq] at greeting
  exact greeting

theorem session_hello (run : SystemRun env debug procs acts s) {ses : Session}
    (session : s.world.session k = some ses) : ses.hello = procs.hello k := by
  have greets : greeted (s.world.phase k) = some ses.hello := by
    unfold World.session at session
    cases here : s.world.phase k with
    | live s' stage =>
      rw [here] at session
      cases session
      rfl
    | _ =>
      rw [here] at session
      cases session
  refine hello_read run (mem_brokerActs.mp (label_of_gained
    (p := fun w => greeted (w.phase k) = some ses.hello) (by simp [World.init, greeted])
    (fun _ _ _ step now => step_greeted step now) (broker_run run) greets))

/-- Fewer than 2^64 registrations, fewer than 2^64 request ids taken on each session, and fewer
    than 2^64 invokes by each client. -/
structure Few (acts : List SystemAct) : Prop where
  sessions : taken generateTakes (brokerActs acts) < 2 ^ 64
  calls : ∀ k, taken (numberTakes k) (brokerActs acts) < 2 ^ 64
  invokes : ∀ k, taken reqIdTakes (clientActs k acts) < 2 ^ 64

theorem plain_invoke (inv : Invoke) : Plain (.invoke inv) := by
  constructor <;> simp [rejection]

theorem plain_response (named : resp.reqId ≠ 0) : Plain (.response resp) := by
  constructor
  · simp
  · simp
  · intro e same
    simp only [rejection, BusFrame.response.injEq] at same
    rw [same] at named
    exact named rfl

theorem plain_ok {bytes : Bytes} (ok : resp.result = .ok bytes) : Plain (.response resp) := by
  constructor
  · simp
  · simp
  · intro e same
    simp only [rejection, BusFrame.response.injEq] at same
    rw [same] at ok
    cases ok

theorem queues_invoke {a : Act} (queued : queues a = some (k, .invoke inv)) :
    ∃ c, a = .send c k inv := by
  cases a <;> simp [queues] at queued
  obtain ⟨rfl, rfl⟩ := queued
  exact ⟨_, rfl⟩

theorem queues_response {a : Act} (queued : queues a = some (k, .response resp)) :
    ∃ c, a = .answer c k resp := by
  cases a <;> simp [queues] at queued
  obtain ⟨rfl, rfl⟩ := queued
  exact ⟨_, rfl⟩

theorem number_nonzero (run : SystemRun env debug procs acts s) (few : Few acts) {r : UInt64}
    (numbered : Numbered (invokes env.toVecNamed debug (procs.hello k) (procs.handlers k))
      (clientActs k acts) i () r) : r ≠ 0 := by
  obtain ⟨a, mem, named⟩ := numbered
  obtain rfl := numbers_eq named
  obtain ⟨l, here⟩ := List.mem_iff_getElem?.mp mem
  have value := taken_value reqId_counts (client_run run k) here (v := r) rfl
  have grows := @taken_grows _ reqIdTakes _ _ r _ _ here rfl (Nat.lt_add_one l)
  have whole := @taken_take_le _ reqIdTakes (clientActs k acts) (l + 1)
  have bound := few.invokes k
  intro zero
  have number := congrArg UInt64.toNat (zero.symm.trans value)
  simp only [Client.new, UInt64.toNat_add, UInt64.toNat_ofNat', UInt64.toNat_zero,
    UInt64.toNat_one] at number
  omega

theorem invoke_frame_once (run : SystemRun env debug procs acts s) (few : Few acts)
    {b b' : ClientAct} (here : acts[m]? = some (.client k b)) (first : b.sends = some (.invoke inv))
    (there : acts[n]? = some (.client k b')) (second : b'.sends = some (.invoke inv)) : m = n := by
  obtain ⟨i, rfl⟩ := sends_invoke first
  obtain ⟨i', rfl⟩ := sends_invoke second
  have part := client_run run k
  have own := (send_frame part (mem_clientActs.mpr (List.mem_of_getElem? here))).2
  have other := (send_frame part (mem_clientActs.mpr (List.mem_of_getElem? there))).2
  obtain rfl := number_unique _ part (Nat.le_of_lt (few.invokes k)) own other
  exact client_once (TokimoClient.send_once part) here there

theorem call_frame_once (run : SystemRun env debug procs acts s) (few : Few acts) {a a' : Act}
    (here : acts[m]? = some (.broker a)) (first : queues a = some (k, .invoke inv))
    (there : acts[n]? = some (.broker a')) (second : queues a' = some (k, .invoke inv)) :
    m = n := by
  obtain ⟨c, rfl⟩ := queues_invoke first
  obtain ⟨c', rfl⟩ := queues_invoke second
  have part := broker_run run
  have sessions := Nat.le_of_lt few.sessions
  have own := sent_numbered part sessions (mem_brokerActs.mpr (List.mem_of_getElem? here))
  have other := sent_numbered part sessions (mem_brokerActs.mpr (List.mem_of_getElem? there))
  obtain rfl := number_unique _ part (Nat.le_of_lt (few.calls k)) own other
  exact broker_once (TokimoResults.send_once part) here there

theorem spawn_once (run : SystemRun env debug procs acts s) (few : Few acts)
    (here : acts[m]? = some (.broker (.spawn k inv c)))
    (there : acts[n]? = some (.broker (.spawn k inv c'))) : m = n :=
  broker_read_once run (plain_invoke inv)
    (fun here first there second => invoke_frame_once run few here first there second)
    here rfl there rfl

theorem invoke_once (run : SystemRun env debug procs acts s) (few : Few acts)
    (here : acts[m]? = some (.client k (.invoke inv t)))
    (there : acts[n]? = some (.client k (.invoke inv t'))) : m = n :=
  client_read_once run (plain_invoke inv)
    (fun here first there second => call_frame_once run few here first there second)
    here rfl there rfl

theorem spawn_sent (run : SystemRun env debug procs acts s)
    (mem : .broker (.spawn k inv c) ∈ acts) : ∃ i, .client k (.send i inv) ∈ acts := by
  obtain ⟨b, sent, queued⟩ := broker_read_queued run (plain_invoke inv) mem rfl
  obtain ⟨i, rfl⟩ := sends_invoke queued
  exact ⟨i, sent⟩

theorem invoke_sent (run : SystemRun env debug procs acts s)
    (mem : .client k (.invoke inv t) ∈ acts) : ∃ c, .broker (.send c k inv) ∈ acts := by
  obtain ⟨a, sent, queued⟩ := client_read_queued run (plain_invoke inv) mem rfl
  obtain ⟨c, rfl⟩ := queues_invoke queued
  exact ⟨c, sent⟩

/-- A Response that a process reads answers one of its Invokes. -/
theorem response_answered (run : SystemRun env debug procs acts s) (plain : Plain (.response resp))
    {hit : Option InvokeId} (mem : .client k (.response resp hit) ∈ acts) :
    ∃ c, .broker (.answer c k resp) ∈ acts := by
  obtain ⟨a, sent, queued⟩ := client_read_queued run plain mem rfl
  obtain ⟨c, rfl⟩ := queues_response queued
  exact ⟨c, sent⟩

/-- A Response that the broker reads is the reply of a task of the process. -/
theorem response_replied (run : SystemRun env debug procs acts s) (plain : Plain (.response resp))
    {hit : Option CallId} (mem : .broker (.response k resp hit) ∈ acts) :
    ∃ t, .client k (.reply t resp) ∈ acts := by
  obtain ⟨b, sent, queued⟩ := broker_read_queued run plain mem rfl
  obtain ⟨t, rfl⟩ := sends_response queued
  exact ⟨t, sent⟩

end TokimoSystem

import TokimoBus.Conformance

/-!
Every Response is one that somebody asked for. A request is answered once, and its number
stays listed until the answer comes; so a client finds the invoke for every Response that it
reads, and the broker finds the call, unless the call has timed out and has taken itself off
the table. This holds while no counter has wrapped round.
-/
namespace TokimoConformance
open TokimoFrame TokimoOutbound TokimoBroker TokimoSession TokimoClient TokimoSystem
open TokimoCorrelation TokimoResults TokimoIdentity LabelledRuns WrappingCounter RequestTable SlotLedger
variable {env : Env} {debug : BusFrame → String} {procs : Processes} {s : System}
  {acts : List SystemAct} {k : ConnId} {w w' : World} {a : Act} {log : List Act}
  {encoder : Encoder} {hello : HelloRequest} {handlers : String → Option HandlerId}
  {c c' : CallId} {i j : InvokeId} {t t' : TaskId} {resp resp' : Response} {inv : Invoke}
  {r : UInt64} {m n : Nat}

theorem answer_once (run : BrokerRun env log w) (here : log[m]? = some (.answer c k resp))
    (there : log[n]? = some (.answer c k resp')) : m = n := by
  apply at_most_once (fun a => ∃ resp, a = .answer c k resp) (rank_stable c 13) ?_ ?_ run
    here ⟨resp, rfl⟩ there ⟨resp', rfl⟩
  · rintro v a v' _ step ⟨resp, rfl⟩ spent
    cases step with
    | answer _ done => simp [done, CallPhase.rank] at spent
  · rintro v a v' _ step ⟨resp, rfl⟩
    cases step with
    | answer => simp [World.setCallPhase, CallPhase.rank]

theorem reply_once {steps : List ClientAct} {x : Client}
    (run : ClientRun encoder debug hello handlers steps x)
    (here : steps[m]? = some (.reply t resp)) (there : steps[n]? = some (.reply t resp')) :
    m = n := by
  apply at_most_once (fun a => ∃ resp, a = .reply t resp) (task_rank_stable t 4) ?_ ?_ run
    here ⟨resp, rfl⟩ there ⟨resp', rfl⟩
  · rintro v a v' _ step ⟨resp, rfl⟩ spent
    cases step with
    | reply now => simp [now, TaskPhase.rank] at spent
  · rintro v a v' _ step ⟨resp, rfl⟩
    cases step with
    | reply => simp [Client.setTask, TaskPhase.rank]

theorem answer_frame_once (run : SystemRun env debug procs acts s) (few : Few acts)
    (here : acts[m]? = some (.broker (.answer c k resp)))
    (there : acts[n]? = some (.broker (.answer c' k resp'))) (same : resp.reqId = resp'.reqId) :
    m = n := by
  have broker := broker_run run
  have client := client_run run k
  obtain ⟨inv, spawned, named⟩ := answer_spawned broker
    (mem_brokerActs.mpr (List.mem_of_getElem? here))
  obtain ⟨inv', spawned', named'⟩ := answer_spawned broker
    (mem_brokerActs.mpr (List.mem_of_getElem? there))
  obtain ⟨i, sent⟩ := spawn_sent run (mem_brokerActs.mp spawned)
  obtain ⟨i', sent'⟩ := spawn_sent run (mem_brokerActs.mp spawned')
  obtain ⟨frame, number⟩ := send_frame client (mem_clientActs.mpr sent)
  obtain ⟨frame', number'⟩ := send_frame client (mem_clientActs.mpr sent')
  have ids : inv.reqId = inv'.reqId := by rw [← named, ← named', same]
  rw [← ids] at number' frame'
  obtain rfl := number_unique _ client (Nat.le_of_lt (few.invokes k)) number number'
  obtain rfl : inv = inv' := frame.trans frame'.symm
  obtain ⟨p, first⟩ := List.mem_iff_getElem?.mp (mem_brokerActs.mp spawned)
  obtain ⟨q, second⟩ := List.mem_iff_getElem?.mp (mem_brokerActs.mp spawned')
  obtain rfl := spawn_once run few first second
  rw [first] at second
  cases second
  exact broker_once (answer_once broker) here there

theorem reply_frame_once (run : SystemRun env debug procs acts s) (few : Few acts)
    (here : acts[m]? = some (.client k (.reply t resp)))
    (there : acts[n]? = some (.client k (.reply t' resp'))) (same : resp.reqId = resp'.reqId) :
    m = n := by
  have broker := broker_run run
  have client := client_run run k
  obtain ⟨inv, invoked, named⟩ := reply_invoked client
    (mem_clientActs.mpr (List.mem_of_getElem? here))
  obtain ⟨inv', invoked', named'⟩ := reply_invoked client
    (mem_clientActs.mpr (List.mem_of_getElem? there))
  obtain ⟨c, sent⟩ := invoke_sent run (mem_clientActs.mp invoked)
  obtain ⟨c', sent'⟩ := invoke_sent run (mem_clientActs.mp invoked')
  have sessions := Nat.le_of_lt few.sessions
  have number := sent_numbered broker sessions (mem_brokerActs.mpr sent)
  have number' := sent_numbered broker sessions (mem_brokerActs.mpr sent')
  rw [named', ← same, ← named] at number'
  obtain rfl := number_unique _ broker (Nat.le_of_lt (few.calls k)) number number'
  obtain ⟨p, first⟩ := List.mem_iff_getElem?.mp (mem_brokerActs.mpr sent)
  obtain ⟨q, second⟩ := List.mem_iff_getElem?.mp (mem_brokerActs.mpr sent')
  obtain rfl := TokimoResults.send_once broker first second
  rw [first] at second
  cases second
  obtain ⟨p, first⟩ := List.mem_iff_getElem?.mp (mem_clientActs.mp invoked)
  obtain ⟨q, second⟩ := List.mem_iff_getElem?.mp (mem_clientActs.mp invoked')
  obtain rfl := invoke_once run few first second
  rw [first] at second
  cases second
  exact client_once (reply_once client) here there

theorem client_response_once (run : SystemRun env debug procs acts s) (few : Few acts)
    {hit hit' : Option InvokeId} (here : acts[m]? = some (.client k (.response resp hit)))
    (there : acts[n]? = some (.client k (.response resp' hit'))) (same : resp.reqId = resp'.reqId) :
    m = n := by
  obtain ⟨a, answered, queued⟩ := client_loop_queued run (List.mem_of_getElem? here) rfl
  obtain ⟨a', answered', queued'⟩ := client_loop_queued run (List.mem_of_getElem? there) rfl
  obtain ⟨c, rfl⟩ := queues_response queued
  obtain ⟨c', rfl⟩ := queues_response queued'
  obtain ⟨p, first⟩ := List.mem_iff_getElem?.mp answered
  obtain ⟨q, second⟩ := List.mem_iff_getElem?.mp answered'
  obtain rfl := answer_frame_once run few first second same
  rw [first] at second
  cases second
  obtain ⟨inv, spawned, named⟩ := answer_spawned (broker_run run) (mem_brokerActs.mpr answered)
  obtain ⟨i, sent⟩ := spawn_sent run (mem_brokerActs.mp spawned)
  have number := (send_frame (client_run run k) (mem_clientActs.mpr sent)).2
  rw [← named] at number
  refine client_read_once run (plain_response (number_nonzero run few number)) ?_ here rfl there rfl
  intro p q a a' here first there second
  obtain ⟨d, rfl⟩ := queues_response first
  obtain ⟨d', rfl⟩ := queues_response second
  exact answer_frame_once run few here there rfl

theorem call_nonzero (run : BrokerRun env log w) (few : taken (numberTakes k) log < 2 ^ 64)
    (numbered : Numbered (calls env) log c k r) : r ≠ 0 := by
  obtain ⟨a, mem, named⟩ := numbered
  obtain rfl := TokimoCorrelation.numbers_eq named
  obtain ⟨l, here⟩ := List.mem_iff_getElem?.mp mem
  have takes : numberTakes k (.number c k r) = some r := by simp [numberTakes]
  have value := taken_value (number_counts k) run here takes
  have grows := taken_grows here takes (Nat.lt_add_one l)
  have whole := @taken_take_le _ (numberTakes k) log (l + 1)
  intro zero
  have number := congrArg UInt64.toNat (zero.symm.trans value)
  simp only [World.init, UInt64.toNat_add, UInt64.toNat_ofNat', UInt64.toNat_zero,
    UInt64.toNat_one] at number
  omega

theorem reply_call (run : SystemRun env debug procs acts s) (few : Few acts)
    (mem : .client k (.reply t resp) ∈ acts) : ∃ c inv, .broker (.send c k inv) ∈ acts ∧
      inv.reqId = resp.reqId ∧ Numbered (calls env) (brokerActs acts) c k resp.reqId := by
  obtain ⟨inv, invoked, named⟩ := reply_invoked (client_run run k) (mem_clientActs.mpr mem)
  obtain ⟨c, sent⟩ := invoke_sent run (mem_clientActs.mp invoked)
  have number := sent_numbered (broker_run run) (Nat.le_of_lt few.sessions)
    (mem_brokerActs.mpr sent)
  rw [named] at number
  exact ⟨c, inv, sent, named, number⟩

theorem broker_response_once (run : SystemRun env debug procs acts s) (few : Few acts)
    {hit hit' : Option CallId} (here : acts[m]? = some (.broker (.response k resp hit)))
    (there : acts[n]? = some (.broker (.response k resp' hit'))) (same : resp.reqId = resp'.reqId) :
    m = n := by
  obtain ⟨b, replied, queued⟩ :=
    broker_loop_queued run (List.mem_of_getElem? here) (ofConn_eq.mpr rfl)
  obtain ⟨b', replied', queued'⟩ :=
    broker_loop_queued run (List.mem_of_getElem? there) (ofConn_eq.mpr rfl)
  obtain ⟨t, rfl⟩ := sends_response queued
  obtain ⟨t', rfl⟩ := sends_response queued'
  obtain ⟨p, first⟩ := List.mem_iff_getElem?.mp replied
  obtain ⟨q, second⟩ := List.mem_iff_getElem?.mp replied'
  obtain rfl := reply_frame_once run few first second same
  rw [first] at second
  cases second
  obtain ⟨c, inv, _, _, number⟩ := reply_call run few replied
  refine broker_read_once run (plain_response (call_nonzero (broker_run run) (few.calls k) number))
    ?_ here rfl there rfl
  intro p q a a' here first there second
  obtain ⟨d, rfl⟩ := sends_response first
  obtain ⟨d', rfl⟩ := sends_response second
  exact reply_frame_once run few here there rfl

def pendingTouch : ClientAct → Option (UInt64 × Option InvokeId)
  | .register i r => some (r, some i)
  | .response resp _ => some (resp.reqId, none)
  | _ => none

theorem pending_ledger : Ledger (ClientStep encoder debug) Client.pending pendingTouch :=
  ledger_of fun step => by cases step <;> rfl

def callTouch (k : ConnId) : Act → Option (UInt64 × Option CallId)
  | .register c j r => if j = k then some (r, some c) else none
  | .response j resp _ => if j = k then some (resp.reqId, none) else none
  | .expire _ j r => if j = k then some (r, none) else none
  | _ => none

theorem call_ledger (k : ConnId) :
    Ledger (Step env) (fun w => w.pendingOut k) (callTouch k) :=
  ledger_of fun step => by
    cases step with
    | @register _ _ j | @response j | @expire _ j =>
      by_cases eq : j = k
      · subst eq
        simp [callTouch, touched, World.setCallPhase, World.setPending, World.wake]
      · simp [callTouch, touched, World.setCallPhase, World.setPending, World.wake, eq, Ne.symm eq]
    | _ => rfl

theorem step_sending {x x' : Client} {b : ClientAct} (step : ClientStep encoder debug x b x')
    (now : x'.invokePhase i = .send r) : x.invokePhase i = .send r ∨ b = .register i r := by
  cases step with
  | @register j r' here =>
    rcases moved_or (c := i) (p := .send r') here with same | ⟨rfl, _⟩
    · exact Or.inl (same.symm.trans now)
    · have number : InvokePhase.send r' = .send r := (Function.update_self i _ _).symm.trans now
      cases number
      exact Or.inr rfl
  | begin here | number here | send here | sendClosed here | complete here | senderGone here
  | cancelStart here | cancelAwait here =>
    exact Or.inl (moved_back (P := fun p => p = InvokePhase.send r) here (by simp) now)
  | _ => exact Or.inl now

theorem sent_listed {steps : List ClientAct} {x : Client}
    (run : ClientRun encoder debug hello handlers steps x) (mem : .send i inv ∈ steps) :
    .register i inv.reqId ∈ steps := by
  obtain ⟨l, here⟩ := List.mem_iff_getElem?.mp mem
  obtain ⟨v, _, before, step, _⟩ := run_at run here
  cases step with
  | @send _ r now =>
    have listed := label_of_gained (p := fun c => c.invokePhase i = .send r) (by simp [Client.new])
      (fun _ _ _ step now => step_sending step now) before now
    exact List.mem_of_mem_take listed

theorem step_call_sending {e : ServiceEntry} (step : Step env w a w')
    (now : w'.callPhase c = .send e k r) :
    w.callPhase c = .send e k r ∨ a = .register c k r := by
  cases step with
  | @register d e' k' r' here =>
    rcases moved_or (c := c) (p := .send e' k' r') here with same | ⟨rfl, _⟩
    · exact Or.inl (same.symm.trans now)
    · have number : CallPhase.send e' k' r' = .send e k r :=
        (Function.update_self c _ _).symm.trans now
      cases number
      exact Or.inr rfl
  | spawn _ new =>
    refine Or.inl (moved_back (P := fun p => p = CallPhase.send e k r) new ?_ now)
    unfold appCall
    split <;> simp
  | probeCheck _ here =>
    refine Or.inl (moved_back (P := fun p => p = CallPhase.send e k r) here ?_ now)
    split <;> simp
  | probe _ here | call here | localHit here | localMiss here | localAdmit here
  | localRefuse here | localReturn here | localTimeout here | lookupNone here | permit here
  | refuse here | routeNone here | route here | number here | send here | sendClosed here
  | complete here | senderGone here | elapse here | expire here | cancelStart _ here
  | cancelLocal _ here | cancelAwait _ here | answer _ here | answerClosed _ here
  | probeFail _ here | cache _ here =>
    exact Or.inl (moved_back (P := fun p => p = CallPhase.send e k r) here (by simp) now)
  | _ => exact Or.inl now

/-- A call lists itself on its session before it queues its frame. -/
theorem call_listed (run : BrokerRun env log w) (few : taken generateTakes log ≤ 2 ^ 64)
    (mem : .send c k inv ∈ log) : .register c k inv.reqId ∈ log := by
  obtain ⟨l, here⟩ := List.mem_iff_getElem?.mp mem
  obtain ⟨v, _, before, step, _⟩ := run_at run here
  cases step with
  | @send _ e j r now =>
    have listed := label_of_gained (p := fun w => w.callPhase c = .send e j r) (by simp [World.init])
      (fun _ _ _ step now => step_call_sending step now) before now
    have number := ticket_numbered (calls env) before (c := c) (k := j) (r := r)
      (by simp [calls, now, TokimoCalls.ticket])
    obtain ⟨b, earlier, named⟩ := number
    obtain ⟨rfl, _⟩ := number_once (calls env) run ⟨b, List.mem_of_mem_take earlier, named⟩
      (sent_numbered run few mem)
    exact List.mem_of_mem_take listed

theorem mem_before {x y : SystemAct} (mem : x ∈ acts ++ [y]) (apart : x ≠ y) : x ∈ acts := by
  rcases List.mem_append.mp mem with old | new
  · exact old
  · exact absurd (List.mem_singleton.mp new) apart

theorem few_before (few : Few acts) (n : Nat) : Few (acts.take n) := by
  obtain ⟨rest, parts⟩ := List.take_prefix n acts
  have broker : brokerActs acts = brokerActs (acts.take n) ++ brokerActs rest := by
    rw [brokerActs, brokerActs, brokerActs, ← List.flatMap_append, parts]
  have client : ∀ k, clientActs k acts = clientActs k (acts.take n) ++ clientActs k rest := by
    intro k
    rw [clientActs, clientActs, clientActs, ← List.flatMap_append, parts]
  obtain ⟨sessions, calls, invokes⟩ := few
  rw [broker, taken_append] at sessions
  refine ⟨by omega, fun k => ?_, fun k => ?_⟩
  · have := calls k
    rw [broker, taken_append] at this
    omega
  · have := invokes k
    rw [client k, taken_append] at this
    omega

/-- A Response that a client reads finds the invoke that asked for it. -/
theorem client_response_expected (run : SystemRun env debug procs acts s) (few : Few acts)
    {hit : Option InvokeId} (here : acts[n]? = some (.client k (.response resp hit))) :
    ∃ i inv, hit = some i ∧ .client k (.send i inv) ∈ acts.take n ∧ inv.reqId = resp.reqId := by
  obtain ⟨v, v', before, step, _⟩ := run_at run here
  have early := few_before few n
  have client := client_run before k
  obtain ⟨a, answered, queued⟩ := client_loop_queued (before.snoc step)
    (List.mem_append_right _ List.mem_cons_self) rfl
  obtain ⟨c, rfl⟩ := queues_response queued
  obtain ⟨inv, spawned, named⟩ := answer_spawned (broker_run before)
    (mem_brokerActs.mpr (mem_before answered (by simp)))
  obtain ⟨i, sent⟩ := spawn_sent before (mem_brokerActs.mp spawned)
  have number := (send_frame client (mem_clientActs.mpr sent)).2
  have listed := sent_listed client (mem_clientActs.mpr sent)
  rw [← named] at number listed
  have found : hit = (v.client k).pending resp.reqId := by
    cases step with
    | client step =>
      cases step with
      | response _ found => exact found
  refine ⟨i, inv, ?_, sent, named.symm⟩
  cases content : (v.client k).pending resp.reqId with
  | some j =>
    have other := slot_numbered (invokes env.toVecNamed debug (procs.hello k) (procs.handlers k))
      client (k := ()) content
    obtain rfl := number_unique _ client (Nat.le_of_lt (early.invokes k)) number other
    rw [found, content]
  | none =>
    rcases slot_latest (k := resp.reqId) pending_ledger client with ⟨_, free⟩ | ⟨front, b, rest,
      parts, touched, _⟩
    · exact absurd ⟨_, rfl⟩ (free _ listed)
    · rw [content] at touched
      have mem : b ∈ clientActs k (acts.take n) := by
        rw [parts]
        simp
      cases b with
      | response resp' hit' =>
        simp only [pendingTouch, Option.some.injEq, Prod.mk.injEq, and_true] at touched
        obtain ⟨l, earlier, there⟩ := mem_take_index (mem_clientActs.mp mem)
        have same := client_response_once run few there here touched
        omega
      | register => simp [pendingTouch] at touched
      | _ => cases touched

theorem broker_response_expected (run : SystemRun env debug procs acts s) (few : Few acts)
    {hit : Option CallId} (here : acts[n]? = some (.broker (.response k resp hit))) :
    ∃ c inv, .broker (.send c k inv) ∈ acts.take n ∧ inv.reqId = resp.reqId ∧
      (hit = some c ∨ hit = none ∧ .broker (.expire c k resp.reqId) ∈ acts.take n) := by
  obtain ⟨v, v', before, step, _⟩ := run_at run here
  have early := few_before few n
  have broker := broker_run before
  obtain ⟨b, replied, queued⟩ := broker_loop_queued (before.snoc step)
    (List.mem_append_right _ List.mem_cons_self) (ofConn_eq.mpr rfl)
  obtain ⟨t, rfl⟩ := sends_response queued
  obtain ⟨c, inv, sent, named, number⟩ := reply_call before early (mem_before replied (by simp))
  have listed := call_listed broker (Nat.le_of_lt early.sessions) (mem_brokerActs.mpr sent)
  rw [named] at listed
  have found : hit = v.world.pendingOut k resp.reqId := by
    cases step with
    | broker step =>
      cases step with
      | response _ found => exact found
  refine ⟨c, inv, sent, named, ?_⟩
  have unique : ∀ {d}, Numbered (calls env) (brokerActs (acts.take n)) d k resp.reqId → d = c :=
    fun other => number_unique _ broker (Nat.le_of_lt (early.calls k)) other number
  cases content : v.world.pendingOut k resp.reqId with
  | some d =>
    obtain rfl := unique (slot_numbered (calls env) broker content)
    exact Or.inl (found.trans content)
  | none =>
    refine Or.inr ⟨found.trans content, ?_⟩
    rcases slot_latest (k := resp.reqId) (call_ledger k) broker with ⟨_, free⟩ | ⟨front, b, rest,
      parts, touched, _⟩
    · exact absurd ⟨some c, by simp [callTouch]⟩ (free _ listed)
    · rw [content] at touched
      have mem : b ∈ brokerActs (acts.take n) := by
        rw [parts]
        simp
      cases b with
      | response j resp' hit' =>
        by_cases eq : j = k
        · subst eq
          simp only [callTouch, ↓reduceIte, Option.some.injEq, Prod.mk.injEq, and_true] at touched
          obtain ⟨l, earlier, there⟩ := mem_take_index (mem_brokerActs.mp mem)
          have same := broker_response_once run few there here touched
          omega
        · simp [callTouch, eq] at touched
      | expire d j r =>
        by_cases eq : j = k
        · subst eq
          simp only [callTouch, ↓reduceIte, Option.some.injEq, Prod.mk.injEq, and_true] at touched
          subst touched
          obtain ⟨l, there⟩ := List.mem_iff_getElem?.mp mem
          obtain ⟨u, _, upto, one, _⟩ := run_at broker there
          have own : Numbered (calls env) (brokerActs (acts.take n)) d j resp.reqId := by
            cases one with
            | expire waiting =>
              obtain ⟨b, earlier, named⟩ := ticket_numbered (calls env) upto (c := d) (k := j)
                (r := resp.reqId) (by simp [calls, waiting, TokimoCalls.ticket])
              exact ⟨b, List.mem_of_mem_take earlier, named⟩
          obtain rfl := unique own
          exact mem_brokerActs.mp mem
        · simp [callTouch, eq] at touched
      | register d j r =>
        by_cases eq : j = k <;> simp [callTouch, eq] at touched
      | _ => cases touched

/-- Who a Response is for, on either side of connection `k`. -/
structure Expected (acts : List SystemAct) (k : ConnId) : Prop where
  client : ∀ n resp hit, acts[n]? = some (.client k (.response resp hit)) → ∃ i inv,
    hit = some i ∧ .client k (.send i inv) ∈ acts.take n ∧ inv.reqId = resp.reqId
  broker : ∀ n resp hit, acts[n]? = some (.broker (.response k resp hit)) → ∃ c inv,
    .broker (.send c k inv) ∈ acts.take n ∧ inv.reqId = resp.reqId ∧
      (hit = some c ∨ hit = none ∧ .broker (.expire c k resp.reqId) ∈ acts.take n)

theorem responses_expected (run : SystemRun env debug procs acts s) (few : Few acts) (k : ConnId) :
    Expected acts k where
  client := fun _ _ _ here => client_response_expected run few here
  broker := fun _ _ _ here => broker_response_expected run few here

theorem ping_expected : Expected pingActs 0 := by
  obtain ⟨w, c, run, _⟩ := ping_run
  exact responses_expected run (few_short (by decide)) 0

end TokimoConformance

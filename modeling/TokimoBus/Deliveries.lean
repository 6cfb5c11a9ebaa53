import TokimoBus.SystemCalls

/-!
What has been queued on a connection that has nothing under way any more has been read at the
other end, each frame after it was queued.
-/
namespace TokimoSystem
open TokimoFrame TokimoOutbound TokimoBroker TokimoSession TokimoClient TokimoChannel
open TokimoConfinement TokimoCalls TokimoResults TokimoWriter LabelledRuns RequestTable Pipes
variable {env : Env} {debug : BusFrame → String} {procs : Processes} {s : System}
  {acts : List SystemAct} {k : ConnId} {f : BusFrame} {p : Nat}

def Spent (o : Outbound) (pipe : List BusFrame) : Prop := o.IsOpen ∧ held o = [] ∧ pipe = []

theorem streamed_whole {encoder : Encoder} {acts : List ChannelAct} {o : Outbound}
    {pipe : List BusFrame} (run : Run (ChannelStep encoder) Outbound.fresh acts o)
    (spent : Spent o pipe) : acts.filterMap ChannelAct.streamed = directed acts ++ pushed acts := by
  have rest := (ordered run).rest spent.1
  rw [spent.2.1, List.append_nil] at rest
  rw [(streamed_parts run).1, rest]

theorem client_reads_all (run : SystemRun env debug procs acts s)
    (spent : Spent (s.world.out k) (s.toClient k)) :
    (acts.filterMap fun x => ofConn k (x.brokerIO queues)).count f ≤
      (acts.filterMap (downward env debug procs k).reads).count f := by
  have stream := streamed_whole (broker_channel_run (broker_run run) k) spent
  rw [broker_streamed, broker_pushed, brokerActs_filterMap, brokerActs_filterMap] at stream
  have written := written_eq (downward env debug procs k) run
  rw [show (downward env debug procs k).content s = [] from spent.2.2, List.append_nil] at written
  have same := stream.symm.trans written
  rw [← same, List.count_append]
  exact Nat.le_add_left _ _

theorem broker_reads_all (run : SystemRun env debug procs acts s)
    (spent : Spent (s.client k).out (s.toBroker k)) :
    (acts.filterMap fun x => ofConn k (x.clientIO ClientAct.sends)).count f ≤
      (acts.filterMap (upward env debug procs k).reads).count f := by
  have stream := streamed_whole (client_channel_run (client_run run k)) spent
  rw [client_streamed, client_pushed, clientActs_filterMap, clientActs_filterMap] at stream
  have written := written_eq (upward env debug procs k) run
  rw [show (upward env debug procs k).content s = [] from spent.2.2, List.append_nil] at written
  have same := stream.symm.trans written
  rw [← same, List.count_append]
  exact Nat.le_add_left _ _

theorem run_take (run : SystemRun env debug procs acts s) (n : Nat) :
    ∃ v, SystemRun env debug procs (acts.take n) v := by
  rw [← List.take_append_drop n acts] at run
  obtain ⟨v, before, _⟩ := run_split run
  exact ⟨v, before⟩

/-- What the broker has queued for a process is read there later. -/
theorem client_reads_later (run : SystemRun env debug procs acts s)
    (spent : Spent (s.world.out k) (s.toClient k)) (ack : ∀ g, f ≠ .helloAck g)
    (kept : .broker (.reject k f) ∉ acts) {a : Act} (here : acts[p]? = some (.broker a))
    (queued : queues a = some (k, f)) :
    ∃ q b, p < q ∧ acts[q]? = some (.client k b) ∧ clientReads b = some f := by
  have early : ∀ n, ((acts.take n).filterMap (downward env debug procs k).reads).count f ≤
      ((acts.take n).filterMap fun x => ofConn k (x.brokerIO queues)).count f := by
    intro n
    obtain ⟨v, before⟩ := run_take run n
    exact client_reads_bound before ack fun mem => kept (List.mem_of_mem_take mem)
  have unread : (downward env debug procs k).reads (.broker a) ≠ some f := by
    simp [downward, SystemAct.clientIO, ofConn]
  obtain ⟨q, x, later, there, read⟩ := read_later early (client_reads_all run spent) here
    (ofConn_eq.mpr queued) unread
  cases x with
  | broker => cases read
  | client j b =>
    obtain ⟨rfl, frame⟩ := on_eq.mp (ofConn_eq.mp read)
    exact ⟨q, b, later, there, frame⟩

theorem broker_reads_later (run : SystemRun env debug procs acts s)
    (spent : Spent (s.client k).out (s.toBroker k)) (greeting : ∀ h, f ≠ .hello h)
    {b : ClientAct} (here : acts[p]? = some (.client k b)) (queued : b.sends = some f) :
    ∃ q a, p < q ∧ acts[q]? = some (.broker a) ∧ brokerReads a = some (k, f) := by
  have early : ∀ n, ((acts.take n).filterMap (upward env debug procs k).reads).count f ≤
      ((acts.take n).filterMap fun x => ofConn k (x.clientIO ClientAct.sends)).count f := by
    intro n
    obtain ⟨v, before⟩ := run_take run n
    exact broker_reads_bound before greeting k
  have unread : (upward env debug procs k).reads (.client k b) ≠ some f := by
    simp [upward, SystemAct.brokerIO, ofConn]
  obtain ⟨q, x, later, there, read⟩ := read_later early (broker_reads_all run spent) here
    (ofConn_eq.mpr (on_eq.mpr ⟨rfl, queued⟩)) unread
  cases x with
  | broker a => exact ⟨q, a, later, there, ofConn_eq.mp read⟩
  | client => cases read

theorem refused_stable (k : ConnId) : Stable (Step env) World.init fun w => w.phase k = .refused := by
  intro w a w' _ step refused
  have still : ∀ {j : ConnId} {p q : Phase}, w.phase j = q → q ≠ .refused →
      Function.update w.phase j p k = .refused := by
    intro j p q here other
    rw [Function.update_of_ne]
    · exact refused
    · rintro rfl
      exact other (here.symm.trans refused)
  cases step with
  | accept here | hello here | consume here | noHello here | clientId here | generate here
  | publish here | attach here | probe here | fanout here | undelivered here | fanned here
  | detach here | check here | forget here | removeIf here | deliver here | target here
  | reject here | rejectBroken here | ack here | ackBroken here | rollback here | abort here
  | hangup here =>
    exact still here (by simp)
  | _ => exact refused

theorem never_refused (run : SystemRun env debug procs acts s) (phase : (s.world.phase k).rank = 9)
    {a : Act} (mem : .broker a ∈ acts) :
    (∀ f, a ≠ .noHello k f) ∧ ∀ f, a ≠ .reject k f := by
  obtain ⟨n, here⟩ := List.mem_iff_getElem?.mp (mem_brokerActs.mpr mem)
  obtain ⟨v, v', before, step, after⟩ := run_at (broker_run run) here
  have going : v'.phase k ≠ .refused := by
    intro refused
    have still := stable_run (refused_stable k) (reachable_step ⟨_, before⟩ step) after refused
    rw [still] at phase
    cases phase
  constructor
  · rintro f rfl
    cases step with
    | noHello => exact going (Function.update_self _ _ _)
  · rintro f rfl
    cases step with
    | reject => exact going (Function.update_self _ _ _)

/-- Both ends of the connection are in their loops, and nothing is under way between them. -/
structure Quiet (s : System) (k : ConnId) : Prop where
  phase : (s.world.phase k).rank = 9
  runner : (s.client k).runner = .reading
  up : Spent (s.client k).out (s.toBroker k)
  down : Spent (s.world.out k) (s.toClient k)

variable {inv : Invoke} {resp : Response} {i : InvokeId} {t : TaskId} {c : CallId}

theorem loop_reads (run : SystemRun env debug procs acts s) (phase : (s.world.phase k).rank = 9)
    (greeting : ∀ h, f ≠ .hello h) {a : Act} (mem : .broker a ∈ acts)
    (read : brokerReads a = some (k, f)) :
    readsFor a = some k ∧ (a = .ignore k f → TokimoSession.Ignored f) := by
  have going := (never_refused run phase mem).1
  constructor
  · cases a with
    | hello j h =>
      simp only [brokerReads, Option.some.injEq, Prod.mk.injEq] at read
      exact absurd read.2.symm (greeting h)
    | noHello j g =>
      cases g with
      | none => cases read
      | some g =>
        simp only [brokerReads, Option.some.injEq, Prod.mk.injEq] at read
        obtain ⟨rfl, rfl⟩ := read
        exact absurd rfl (going _)
    | response | fanout | subscribe | unsubscribe | spawn | ignore =>
      simp only [brokerReads, Option.some.injEq, Prod.mk.injEq] at read
      simp [readsFor, read.1]
    | _ => cases read
  · rintro rfl
    obtain ⟨n, here⟩ := List.mem_iff_getElem?.mp (mem_brokerActs.mpr mem)
    obtain ⟨v, v', _, step, _⟩ := run_at (broker_run run) here
    cases step with
    | ignore _ other => exact other

theorem client_loop_reads (run : SystemRun env debug procs acts s)
    (runner : (s.client k).runner = .reading) {b : ClientAct} (mem : .client k b ∈ acts) :
    (∀ f e, b ≠ .refused f e) ∧ ∀ f, b = .ignore f → TokimoClient.Ignored f := by
  obtain ⟨n, here⟩ := List.mem_iff_getElem?.mp (mem_clientActs.mpr mem)
  obtain ⟨v, v', before, step, after⟩ := run_at (client_run run k) here
  constructor
  · rintro f e rfl
    have failed : 6 ≤ v'.runner.rank := by
      cases step with
      | refused => simp [Client.setRunner, Runner.rank]
    have still := stable_run (p := fun c => 6 ≤ c.runner.rank)
      (fun _ _ _ _ step now => Nat.le_trans now (step_runner_rank step))
      (reachable_step ⟨_, before⟩ step) after failed
    rw [runner] at still
    simp [Runner.rank] at still
  · rintro f rfl
    cases step with
    | ignore _ other => exact other

theorem taken_later (run : SystemRun env debug procs acts s) (quiet : Quiet s k)
    (greeting : ∀ h, f ≠ .hello h) {b : ClientAct} (here : acts[p]? = some (.client k b))
    (queued : b.sends = some f) : ∃ q a, p < q ∧ acts[q]? = some (.broker a) ∧
      (∀ inv, f = .invoke inv → ∃ c, a = .spawn k inv c) ∧
      ∀ resp, f = .response resp → ∃ hit, a = .response k resp hit := by
  obtain ⟨q, a, later, there, read⟩ := broker_reads_later run quiet.up greeting here queued
  obtain ⟨loop, other⟩ := loop_reads run quiet.phase greeting (List.mem_of_getElem? there) read
  refine ⟨q, a, later, there, ?_, ?_⟩
  · rintro inv rfl
    cases a <;> simp_all [brokerReads, readsFor, TokimoSession.Ignored]
  · rintro resp rfl
    cases a <;> simp_all [brokerReads, readsFor, TokimoSession.Ignored]

theorem spawned_later (run : SystemRun env debug procs acts s) (quiet : Quiet s k)
    (here : acts[p]? = some (.client k (.send i inv))) :
    ∃ q c, p < q ∧ acts[q]? = some (.broker (.spawn k inv c)) := by
  obtain ⟨q, a, later, there, spawns, _⟩ := taken_later run quiet (by simp) here rfl
  obtain ⟨c, rfl⟩ := spawns inv rfl
  exact ⟨q, c, later, there⟩

theorem reply_later (run : SystemRun env debug procs acts s) (quiet : Quiet s k)
    (here : acts[p]? = some (.client k (.reply t resp))) :
    ∃ q hit, p < q ∧ acts[q]? = some (.broker (.response k resp hit)) := by
  obtain ⟨q, a, later, there, _, answers⟩ := taken_later run quiet (by simp) here rfl
  obtain ⟨hit, rfl⟩ := answers resp rfl
  exact ⟨q, hit, later, there⟩

theorem received_later (run : SystemRun env debug procs acts s) (quiet : Quiet s k)
    (ack : ∀ g, f ≠ .helloAck g) {a : Act} (here : acts[p]? = some (.broker a))
    (queued : queues a = some (k, f)) : ∃ q b, p < q ∧ acts[q]? = some (.client k b) ∧
      (∀ inv, f = .invoke inv → ∃ t, b = .invoke inv t) ∧
      ∀ resp, f = .response resp → ∃ hit, b = .response resp hit := by
  have kept : .broker (.reject k f) ∉ acts :=
    fun mem => (never_refused run quiet.phase mem).2 f rfl
  obtain ⟨q, b, later, there, read⟩ := client_reads_later run quiet.down ack kept here queued
  obtain ⟨going, other⟩ := client_loop_reads run quiet.runner (List.mem_of_getElem? there)
  refine ⟨q, b, later, there, ?_, ?_⟩
  · rintro inv rfl
    cases b <;> simp_all [clientReads, TokimoClient.Ignored]
  · rintro resp rfl
    cases b <;> simp_all [clientReads, TokimoClient.Ignored]

theorem invoked_later (run : SystemRun env debug procs acts s) (quiet : Quiet s k)
    (here : acts[p]? = some (.broker (.send c k inv))) :
    ∃ q t, p < q ∧ acts[q]? = some (.client k (.invoke inv t)) := by
  obtain ⟨q, b, later, there, invokes, _⟩ := received_later run quiet (by simp) here rfl
  obtain ⟨t, rfl⟩ := invokes inv rfl
  exact ⟨q, t, later, there⟩

theorem answer_later (run : SystemRun env debug procs acts s) (quiet : Quiet s k)
    (here : acts[p]? = some (.broker (.answer c k resp))) :
    ∃ q hit, p < q ∧ acts[q]? = some (.client k (.response resp hit)) := by
  obtain ⟨q, b, later, there, _, answers⟩ := received_later run quiet (by simp) here rfl
  obtain ⟨hit, rfl⟩ := answers resp rfl
  exact ⟨q, hit, later, there⟩

theorem sent_stable (k : ConnId) (i : InvokeId) : Stable (SystemStep env debug)
    (System.start procs) fun s => 4 ≤ ((s.client k).invokePhase i).rank := by
  refine client_stable (p := fun c => 4 ≤ (c.invokePhase i).rank) ?_ k
  intro c b c' step now
  rcases step_invoke_rank step i with same | up
  · rwa [same]
  · exact Nat.le_trans now (Nat.le_of_lt up)

/-- An invoke that is listed in the end has had no Response with its number since it queued its
    frame. -/
theorem listed_unanswered {n : Nat} {hit : Option InvokeId}
    (run : SystemRun env debug procs acts s) (sent : acts[p]? = some (.client k (.send i inv)))
    (read : acts[n]? = some (.client k (.response resp hit))) (order : p < n)
    (same : resp.reqId = inv.reqId) : (s.client k).pending inv.reqId ≠ some i := by
  intro listed
  obtain ⟨v, w, before, step, after, held⟩ := holds_between (sent_stable k i) run sent read order
    (fun v w _ step => by
      cases step with
      | client one =>
        have rank := (TokimoClient.send_rank one).2
        simp [System.clientMoved, rank])
  have first := client_run before k
  have stage : 2 ≤ invokeStage ((v.client k).invokePhase i) :=
    @invokeStage_mono (.await 0) ((v.client k).invokePhase i) held
  have since := listed_since (invokes env.toVecNamed debug (procs.hello k) (procs.handlers k))
    first (k := ()) (client_part (run_cons step after) k) listed stage
  cases step with
  | client one =>
    have woken : hit = some i := by
      cases one with
      | response _ found =>
        rw [found, same]
        exact since
    subst woken
    have gone := hit_unlists (invokes env.toVecNamed debug (procs.hello k) (procs.handlers k))
      first (k := ()) (p := resp) (c := i) one rfl
    have rest := client_part after k
    simp only [System.clientMoved, Function.update_self] at rest
    have still := stable_run (unlisted_stable _ i) (reachable_step ⟨_, first⟩ one) rest gone
    exact still.2 () inv.reqId listed

theorem spawned_first {q : Nat} {a : Act} (run : SystemRun env debug procs acts s)
    (spawned : acts[p]? = some (.broker (.spawn k inv c))) (here : acts[q]? = some (.broker a))
    (apart : a ≠ .spawn k inv c) (begun : ∀ w w', Step env w a w' → w'.callPhase c ≠ .unused) :
    p < q := by
  have different : SystemAct.broker (.spawn k inv c) ≠ .broker a := by
    intro same
    cases same
    exact apart rfl
  refine happens_before (world_stable (p := fun w => w.callPhase c ≠ .unused) fun step =>
    begun_keeps step) run spawned here different ?_ ?_
  · intro v w step used
    cases step with
    | broker one =>
      cases one with
      | spawn _ new => exact used new
  · intro v w _ step
    cases step with
    | broker one => exact begun _ _ one

theorem invoked_first {q : Nat} {b : ClientAct} (run : SystemRun env debug procs acts s)
    (invoked : acts[p]? = some (.client k (.invoke inv t))) (here : acts[q]? = some (.client k b))
    (apart : b ≠ .invoke inv t)
    (begun : ∀ c c', ClientStep env.toVecNamed debug c b c' → 1 ≤ (c'.task t).rank) : p < q := by
  have different : SystemAct.client k (.invoke inv t) ≠ .client k b := by
    intro same
    cases same
    exact apart rfl
  refine happens_before (client_stable (p := fun c => 1 ≤ (c.task t).rank) (fun step now =>
    Nat.le_trans now (step_task step t).rank) k) run invoked here different ?_ ?_
  · intro v w step used
    cases step with
    | client one =>
      cases one with
      | invoke _ new => simp [new, TaskPhase.rank] at used
  · intro v w _ step
    cases step with
    | client one => simpa [System.clientMoved] using begun _ _ one

theorem answered_unlisted {q : Nat} (run : SystemRun env debug procs acts s) (quiet : Quiet s k)
    (sent : acts[p]? = some (.client k (.send i inv)))
    (spawned : acts[q]? = some (.broker (.spawn k inv c))) (order : p < q)
    (ended : s.world.callPhase c = .answered) : (s.client k).pending inv.reqId ≠ some i := by
  have part := broker_run run
  have spawn := mem_brokerActs.mpr (List.mem_of_getElem? spawned)
  obtain ⟨begun, origin⟩ := spawned_call part spawn
  rcases answered_replied part origin ended with ⟨resp, mem, same⟩ | closed
  · obtain ⟨m, answered⟩ := List.mem_iff_getElem?.mp (mem_brokerActs.mp mem)
    have first := spawned_first run spawned answered (by simp) fun w w' step => by
      cases step with
      | answer => simp [World.setCallPhase]
    obtain ⟨n, hit, later, read⟩ := answer_later run quiet answered
    exact listed_unanswered run sent read (by omega) same
  · obtain ⟨m, here⟩ := List.mem_iff_getElem?.mp closed
    obtain ⟨v, w, before, step, after⟩ := run_at part here
    cases step with
    | @answerClosed _ j inv' _ app ended' shut =>
      have fixed := call_fixed (c := c) ⟨_, before⟩
        (run_cons (Step.answerClosed app ended' shut) after) (by simp [ended'])
      rw [fixed, app] at origin
      cases origin
      have still := stable_run (closed_stable k) ⟨_, before⟩
        (run_cons (Step.answerClosed app ended' shut) after) shut
      exact absurd quiet.down.1 still

theorem queued_stable (c : CallId) : Stable (SystemStep env debug) (System.start procs)
    fun s => 9 ≤ (s.world.callPhase c).rank := by
  refine world_stable (p := fun w => 9 ≤ (w.callPhase c).rank) ?_
  intro w a w' step now
  rcases step_call_rank step c with same | up
  · rwa [same]
  · exact Nat.le_trans now (Nat.le_of_lt up)

theorem listed_unreplied {n : Nat} {hit : Option CallId} (run : SystemRun env debug procs acts s)
    (sent : acts[p]? = some (.broker (.send c k inv)))
    (read : acts[n]? = some (.broker (.response k resp hit))) (order : p < n)
    (same : resp.reqId = inv.reqId) : s.world.pendingOut k inv.reqId ≠ some c := by
  intro listed
  obtain ⟨v, w, before, step, after, held⟩ := holds_between (queued_stable c) run sent read order
    (fun v w _ step => by
      cases step with
      | broker one =>
        have rank := (TokimoResults.send_rank one).2
        simp [System.brokerMoved, rank])
  have first := broker_run before
  have stage : 2 ≤ TokimoCorrelation.callStage (v.world.callPhase c) :=
    @TokimoCorrelation.callStage_mono (.await 0 0) (v.world.callPhase c) held
  have since := listed_since (TokimoCorrelation.calls env) first
    (broker_part (run_cons step after)) listed stage
  cases step with
  | broker one =>
    have woken : hit = some c := by
      cases one with
      | response _ found =>
        rw [found, same]
        exact since
    subst woken
    have gone := hit_unlists (TokimoCorrelation.calls env) first (p := resp) (c := c) one rfl
    have still := stable_run (unlisted_stable _ c) (reachable_step ⟨_, first⟩ one)
      (broker_part after) gone
    exact still.2 k inv.reqId listed

theorem finished_unlisted {q : Nat} (run : SystemRun env debug procs acts s) (quiet : Quiet s k)
    (sent : acts[p]? = some (.broker (.send c k inv)))
    (invoked : acts[q]? = some (.client k (.invoke inv t))) (order : p < q)
    (ended : (s.client k).task t = .finished) : s.world.pendingOut k inv.reqId ≠ some c := by
  have part := client_run run k
  have task := mem_clientActs.mpr (List.mem_of_getElem? invoked)
  rcases finished_replied part ended with ⟨resp, mem⟩ | closed
  · obtain ⟨inv', task', same⟩ := reply_invoked part mem
    obtain rfl := invoked_once part task task'
    obtain ⟨m, replied⟩ := List.mem_iff_getElem?.mp (mem_clientActs.mp mem)
    have first := invoked_first run invoked replied (by simp) fun c c' step => by
      cases step with
      | reply => simp [Client.setTask, TaskPhase.rank]
    obtain ⟨n, hit, later, read⟩ := reply_later run quiet replied
    exact listed_unreplied run sent read (by omega) same.symm
  · obtain ⟨m, here⟩ := List.mem_iff_getElem?.mp closed
    obtain ⟨v, w, before, step, after⟩ := run_at part here
    have shut : ¬ v.out.IsOpen := by
      cases step with
      | replyClosed _ closed => exact closed
    have still := stable_run client_closed_stable ⟨_, before⟩ (run_cons step after) shut
    exact absurd quiet.up.1 still

end TokimoSystem

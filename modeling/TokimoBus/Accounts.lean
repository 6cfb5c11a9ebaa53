import TokimoBus.Expected
import TokimoBus.Enabled
import TokimoBus.Lines

/-!
Where the requests are. The Invoke of a process goes out on its line to the broker, a task of the
broker serves it, and the Response comes back on the line to the process; the Invoke of a call of
the broker goes the other way. At every moment each of them is in one place. So an invoke
whose Response is not there yet waits for something that is still under way, as long as the lines
of its connection are open.
-/
namespace TokimoAccounts
open TokimoFrame TokimoOutbound TokimoBroker TokimoSession TokimoClient TokimoSystem
open TokimoChannel TokimoWriter TokimoResults TokimoCorrelation TokimoConfinement TokimoEnabled
open TokimoCalls TokimoConformance
open LabelledRuns Pipes Lines
variable {env : Env} {debug : BusFrame → String} {procs : Processes} {s : System}
  {acts : List SystemAct} {j k : ConnId} {f : BusFrame} {w : World} {log : List Act}
  {c : CallId} {i : InvokeId} {t : TaskId} {inv : Invoke} {resp resp' : Response}

theorem up_counts (run : SystemRun env debug procs acts s) (plain : Plain f) (k : ConnId) :
    ((s.client k).out.IsOpen → (acts.filterMap (upward env debug procs k).writes).count f +
      (held (s.client k).out).count f =
        (acts.filterMap fun x => ofConn k (x.clientIO ClientAct.sends)).count f) ∧
    (acts.filterMap (upward env debug procs k).writes).count f ≤
      (acts.filterMap fun x => ofConn k (x.clientIO ClientAct.sends)).count f := by
  have part := client_run run k
  have counts := streamed_counts (client_channel_run part) (client_directed part plain.hello)
  rw [client_streamed, client_pushed, clientActs_filterMap, clientActs_filterMap] at counts
  exact counts

theorem down_counts (run : SystemRun env debug procs acts s) (plain : Plain f) (k : ConnId) :
    ((s.world.out k).IsOpen → (acts.filterMap (downward env debug procs k).writes).count f +
      (held (s.world.out k)).count f =
        (acts.filterMap fun x => ofConn k (x.brokerIO queues)).count f) ∧
    (acts.filterMap (downward env debug procs k).writes).count f ≤
      (acts.filterMap fun x => ofConn k (x.brokerIO queues)).count f := by
  have part := broker_run run
  have counts := streamed_counts (broker_channel_run part k)
    (broker_directed part plain.ack fun mem =>
      unrejected run plain.rejection (mem_brokerActs.mp mem))
  rw [broker_streamed, broker_pushed, brokerActs_filterMap, brokerActs_filterMap] at counts
  exact counts

def upLine (env : Env) (debug : BusFrame → String) (procs : Processes) (k : ConnId) :
    Line (SystemStep env debug) (System.start procs) BusFrame where
  toPipe := upward env debug procs k
  queues := fun x => ofConn k (x.clientIO ClientAct.sends)
  waiting := fun s => held (s.client k).out
  ended := fun s => (s.client k).out.writer = .ended
  Carries := Plain
  drains := fun run plain alive => (up_counts run plain k).1 alive
  drops := fun run plain ended =>
    ⟨ended_empty (client_channel_run (client_run run k)) ended, (up_counts run plain k).2⟩

def downLine (env : Env) (debug : BusFrame → String) (procs : Processes) (k : ConnId) :
    Line (SystemStep env debug) (System.start procs) BusFrame where
  toPipe := downward env debug procs k
  queues := fun x => ofConn k (x.brokerIO queues)
  waiting := fun s => held (s.world.out k)
  ended := fun s => (s.world.out k).writer = .ended
  Carries := Plain
  drains := fun run plain alive => (down_counts run plain k).1 alive
  drops := fun run plain ended =>
    ⟨ended_empty (broker_channel_run (broker_run run) k) ended, (down_counts run plain k).2⟩

/-- What the tasks of the broker do with the Invoke `inv` from connection `k`. -/
def serving (acts : List SystemAct) (s : System) (k : ConnId) (inv : Invoke) :
    Works CallId BusFrame where
  Taken := fun c => .broker (.spawn k inv c) ∈ acts
  Busy := fun c => s.world.callPhase c ≠ .answered
  Dropped := fun c => .broker (.answerClosed c) ∈ acts
  Answered := fun c g => ∃ resp, g = .response resp ∧ .broker (.answer c k resp) ∈ acts

/-- What the tasks of the process at connection `j` do with the Invoke `inv` from the broker. -/
def handling (acts : List SystemAct) (s : System) (j : ConnId) (inv : Invoke) :
    Works TaskId BusFrame where
  Taken := fun t => .client j (.invoke inv t) ∈ acts
  Busy := fun t => (s.client j).task t ≠ .finished
  Dropped := fun t => .client j (.replyClosed t) ∈ acts
  Answered := fun t g => ∃ resp, g = .response resp ∧ .client j (.reply t resp) ∈ acts

def InvokeAt (env : Env) (debug : BusFrame → String) (procs : Processes) (acts : List SystemAct)
    (s : System) (k : ConnId) (inv : Invoke) : Place CallId BusFrame → Prop :=
  Stands (upLine env debug procs k) (downLine env debug procs k) (serving acts s k inv) acts s
    (.invoke inv)

def CallAt (env : Env) (debug : BusFrame → String) (procs : Processes) (acts : List SystemAct)
    (s : System) (j : ConnId) (inv : Invoke) : Place TaskId BusFrame → Prop :=
  Stands (downLine env debug procs j) (upLine env debug procs j) (handling acts s j inv) acts s
    (.invoke inv)

theorem queued_once {a : Act} (mem : .broker a ∈ acts) (queued : queues a = some (k, f))
    (once : ∀ {m n : Nat} {a a' : Act}, acts[m]? = some (.broker a) → queues a = some (k, f) →
      acts[n]? = some (.broker a') → queues a' = some (k, f) → m = n) :
    (acts.filterMap fun x => ofConn k (x.brokerIO queues)).count f = 1 := by
  have few : acts.countP (fun x => x.brokerIO queues = some (k, f)) ≤ 1 := by
    apply countP_le_one
    intro m n x y here first there second
    have first := of_decide_eq_true first
    have second := of_decide_eq_true second
    cases x with
    | client => cases first
    | broker a =>
      cases y with
      | client => cases second
      | broker a' => exact once here first there second
  have some : 0 < acts.countP (fun x => x.brokerIO queues = some (k, f)) :=
    List.countP_pos_iff.mpr ⟨_, mem, decide_eq_true queued⟩
  rw [count_ofConn]
  omega

theorem sent_once {b : ClientAct} (mem : .client k b ∈ acts) (queued : b.sends = some f)
    (once : ∀ {m n : Nat} {b b' : ClientAct}, acts[m]? = some (.client k b) → b.sends = some f →
      acts[n]? = some (.client k b') → b'.sends = some f → m = n) :
    (acts.filterMap fun x => ofConn k (x.clientIO ClientAct.sends)).count f = 1 := by
  have few : acts.countP (fun x => x.clientIO ClientAct.sends = some (k, f)) ≤ 1 := by
    apply countP_le_one
    intro m n x y here first there second
    have first := of_decide_eq_true first
    have second := of_decide_eq_true second
    cases x with
    | broker => cases first
    | client l b =>
      cases y with
      | broker => cases second
      | client l' b' =>
        obtain ⟨rfl, sent⟩ := on_eq.mp first
        obtain ⟨rfl, sent'⟩ := on_eq.mp second
        exact once here sent there sent'
  have some : 0 < acts.countP (fun x => x.clientIO ClientAct.sends = some (k, f)) :=
    List.countP_pos_iff.mpr ⟨_, mem, decide_eq_true (on_eq.mpr ⟨rfl, queued⟩)⟩
  rw [count_ofConn]
  omega

theorem up_read (run : SystemRun env debug procs acts s) (plain : Plain f)
    (read : f ∈ acts.filterMap (upLine env debug procs k).reads) :
    ∃ a, .broker a ∈ acts ∧ brokerLoop k a = some f := by
  obtain ⟨x, mem, found⟩ := List.mem_filterMap.mp read
  cases x with
  | client => cases found
  | broker a =>
    refine ⟨a, mem, ?_⟩
    have frame := upward_reads.mp found
    cases a with
    | hello l h =>
      cases frame
      exact absurd rfl (plain.hello h)
    | noHello l g =>
      cases g with
      | none => cases frame
      | some g => exact (greeted_first run mem).elim
    | _ => exact ofConn_eq.mpr frame

theorem down_read (run : SystemRun env debug procs acts s) (plain : Plain f)
    (read : f ∈ acts.filterMap (downLine env debug procs j).reads) :
    ∃ b, .client j b ∈ acts ∧ clientLoop b = some f := by
  obtain ⟨x, mem, found⟩ := List.mem_filterMap.mp read
  cases x with
  | broker => cases found
  | client l b =>
    obtain ⟨rfl, frame⟩ := on_eq.mp (ofConn_eq.mp found)
    refine ⟨b, mem, ?_⟩
    cases b with
    | acked a =>
      cases frame
      exact absurd rfl (plain.ack a)
    | refused g e =>
      cases frame
      obtain ⟨n, here⟩ := List.mem_iff_getElem?.mp mem
      exact absurd (TokimoGreeting.refused_rejected run here).1 (plain.rejection e)
    | _ => exact frame

theorem brokerLoop_reads {a : Act} (read : brokerLoop k a = some f) : brokerReads a = some (k, f) := by
  cases a with
  | hello | noHello => cases read
  | _ => exact ofConn_eq.mp read

theorem invoke_taken (run : SystemRun env debug procs acts s) :
    .invoke inv ∈ acts.filterMap (upLine env debug procs k).reads ↔
      ∃ c, .broker (.spawn k inv c) ∈ acts := by
  constructor
  · intro read
    obtain ⟨a, mem, looped⟩ := up_read run (plain_invoke inv) read
    have frame := brokerLoop_reads looped
    cases a with
    | spawn =>
      cases frame
      exact ⟨_, mem⟩
    | noHello l g => cases looped
    | ignore l g =>
      cases frame
      obtain ⟨n, here⟩ := List.mem_iff_getElem?.mp mem
      obtain ⟨v, v', _, step, _⟩ := run_at run here
      cases step with
      | broker step =>
        cases step with
        | ignore _ other => exact absurd other id
    | _ => cases frame
  · rintro ⟨c, mem⟩
    exact List.mem_filterMap.mpr ⟨_, mem, upward_reads.mpr rfl⟩

theorem call_taken (run : SystemRun env debug procs acts s) :
    .invoke inv ∈ acts.filterMap (downLine env debug procs j).reads ↔
      ∃ t, .client j (.invoke inv t) ∈ acts := by
  constructor
  · intro read
    obtain ⟨b, mem, frame⟩ := down_read run (plain_invoke inv) read
    cases b with
    | invoke =>
      cases frame
      exact ⟨_, mem⟩
    | ignore g =>
      cases frame
      obtain ⟨n, here⟩ := List.mem_iff_getElem?.mp mem
      obtain ⟨v, v', _, step, _⟩ := run_at run here
      cases step with
      | client step =>
        cases step with
        | ignore _ other => exact absurd other id
    | _ => cases frame
  · rintro ⟨t, mem⟩
    exact List.mem_filterMap.mpr ⟨_, mem, downward_reads⟩

theorem response_met (run : SystemRun env debug procs acts s) (plain : Plain (.response resp))
    (read : .response resp ∈ acts.filterMap (downLine env debug procs k).reads) :
    ∃ hit, .client k (.response resp hit) ∈ acts := by
  obtain ⟨b, mem, frame⟩ := down_read run plain read
  cases b with
  | response =>
    cases frame
    exact ⟨_, mem⟩
  | ignore g =>
    cases frame
    obtain ⟨n, here⟩ := List.mem_iff_getElem?.mp mem
    obtain ⟨v, v', _, step, _⟩ := run_at run here
    cases step with
    | client step =>
      cases step with
      | ignore _ other => exact absurd other id
  | _ => cases frame

def Closes (c : CallId) (a : Act) : Prop := a = .answerClosed c ∨ ∃ k resp, a = .answer c k resp

theorem closes_rank {a : Act} {w' : World} (closes : Closes c a) (step : Step env w a w') :
    (w.callPhase c).rank = 11 ∧ 13 ≤ (w'.callPhase c).rank := by
  obtain rfl | ⟨k, resp, rfl⟩ := closes
  · cases step with
    | answerClosed _ here => simp [here, World.setCallPhase, CallPhase.rank]
  · cases step with
    | answer _ here => simp [here, World.setCallPhase, CallPhase.rank]

theorem closes_same {a b : Act} (run : BrokerRun env log w) (first : a ∈ log) (closes : Closes c a)
    (second : b ∈ log) (closes' : Closes c b) : a = b := by
  refine one_label (Closes c) (rank_stable c 13) ?_ ?_ run first closes second closes'
  · intro v a v' _ step closes spent
    have := (closes_rank closes step).1
    omega
  · intro v a v' _ step closes
    exact (closes_rank closes step).2

/-- A call for an app whose task has answered is over. -/
theorem closed_answered {a : Act} (run : BrokerRun env log w)
    (app : (w.call c).origin = .app k inv) (mem : a ∈ log) (closes : Closes c a) :
    w.callPhase c = .answered := by
  have past := holds_after (rank_stable c 13) run mem fun _ _ _ step => (closes_rank closes step).2
  have kept := app_kept ⟨_, run⟩ app
  cases here : w.callPhase c with
  | answered => rfl
  | cancelled | caching =>
    rw [here] at kept
    cases kept
  | _ =>
    rw [here] at past
    simp [CallPhase.rank] at past

def Ends (t : TaskId) (b : ClientAct) : Prop := b = .replyClosed t ∨ ∃ resp, b = .reply t resp

section client
variable {encoder : Encoder} {hello : HelloRequest} {handlers : String → Option HandlerId}
  {x x' : Client} {a b : ClientAct} {steps : List ClientAct}

theorem ends_rank (ends : Ends t b) (step : ClientStep encoder debug x b x') :
    (x.task t).rank = 3 ∧ 4 ≤ (x'.task t).rank := by
  obtain rfl | ⟨resp, rfl⟩ := ends
  · cases step with
    | replyClosed here => simp [here, Client.setTask, TaskPhase.rank]
  · cases step with
    | reply here => simp [here, Client.setTask, TaskPhase.rank]

theorem ends_same (run : ClientRun encoder debug hello handlers steps x) (first : a ∈ steps)
    (ends : Ends t a) (second : b ∈ steps) (ends' : Ends t b) : a = b := by
  refine one_label (Ends t) (task_rank_stable t 4) ?_ ?_ run first ends second ends'
  · intro v b v' _ step ends spent
    have := (ends_rank ends step).1
    omega
  · intro v b v' _ step ends
    exact (ends_rank ends step).2

theorem ended_finished (run : ClientRun encoder debug hello handlers steps x) (mem : b ∈ steps)
    (ends : Ends t b) : x.task t = .finished := by
  have past := holds_after (task_rank_stable t 4) run mem fun _ _ _ step => (ends_rank ends step).2
  cases here : x.task t with
  | finished => rfl
  | _ =>
    rw [here] at past
    simp [TaskPhase.rank] at past

end client

theorem invoke_errand (run : SystemRun env debug procs acts s) (few : Few acts)
    (sent : .client k (.send i inv) ∈ acts) :
    Errand (upLine env debug procs k) (downLine env debug procs k) (serving acts s k inv) acts
      (.invoke inv) where
  carries := plain_invoke inv
  sent := sent_once sent rfl fun here first there second =>
    invoke_frame_once run few here first there second
  arrives := invoke_taken run
  alone := by
    intro c c' first second
    obtain ⟨m, here⟩ := List.mem_iff_getElem?.mp first
    obtain ⟨n, there⟩ := List.mem_iff_getElem?.mp second
    obtain rfl := spawn_once run few here there
    rw [here] at there
    cases there
    rfl
  fate := by
    intro c spawned
    by_cases past : s.world.callPhase c = .answered
    · have app := (spawned_call (broker_run run) (mem_brokerActs.mpr spawned)).2
      rcases answered_replied (broker_run run) app past with ⟨resp, answered, _⟩ | closed
      · exact Or.inr (Or.inr ⟨_, resp, rfl, mem_brokerActs.mp answered⟩)
      · exact Or.inr (Or.inl (mem_brokerActs.mp closed))
    · exact Or.inl past
  busy := by
    intro c spawned busy
    have app := (spawned_call (broker_run run) (mem_brokerActs.mpr spawned)).2
    constructor
    · intro closed
      exact busy (closed_answered (broker_run run) app (mem_brokerActs.mpr closed) (Or.inl rfl))
    · rintro g ⟨resp, rfl, answered⟩
      exact busy (closed_answered (broker_run run) app (mem_brokerActs.mpr answered)
        (Or.inr ⟨_, _, rfl⟩))
  dropped := by
    rintro c g _ closed ⟨resp, rfl, answered⟩
    cases closes_same (broker_run run) (mem_brokerActs.mpr closed) (Or.inl rfl)
      (mem_brokerActs.mpr answered) (Or.inr ⟨_, _, rfl⟩)
  single := by
    rintro c g g' _ ⟨resp, rfl, answered⟩ ⟨resp', rfl, answered'⟩
    cases closes_same (broker_run run) (mem_brokerActs.mpr answered) (Or.inr ⟨_, _, rfl⟩)
      (mem_brokerActs.mpr answered') (Or.inr ⟨_, _, rfl⟩)
    rfl
  returns := by
    rintro c g spawned ⟨resp, rfl, answered⟩
    refine ⟨plain_response ?_, queued_once answered rfl fun here first there second => ?_⟩
    · obtain ⟨inv', spawned', same⟩ := answer_spawned (broker_run run) (mem_brokerActs.mpr answered)
      obtain ⟨i', sent'⟩ := spawn_sent run (mem_brokerActs.mp spawned')
      rw [same]
      exact number_nonzero run few (send_frame (client_run run k) (mem_clientActs.mpr sent')).2
    · obtain ⟨d, rfl⟩ := queues_response first
      obtain ⟨d', rfl⟩ := queues_response second
      exact answer_frame_once run few here there rfl

theorem call_errand (run : SystemRun env debug procs acts s) (few : Few acts)
    (sent : .broker (.send c j inv) ∈ acts) :
    Errand (downLine env debug procs j) (upLine env debug procs j) (handling acts s j inv) acts
      (.invoke inv) where
  carries := plain_invoke inv
  sent := queued_once sent rfl fun here first there second =>
    call_frame_once run few here first there second
  arrives := call_taken run
  alone := by
    intro t t' first second
    obtain ⟨m, here⟩ := List.mem_iff_getElem?.mp first
    obtain ⟨n, there⟩ := List.mem_iff_getElem?.mp second
    obtain rfl := invoke_once run few here there
    rw [here] at there
    cases there
    rfl
  fate := by
    intro t _
    by_cases past : (s.client j).task t = .finished
    · rcases finished_replied (client_run run j) past with ⟨resp, replied⟩ | closed
      · exact Or.inr (Or.inr ⟨_, resp, rfl, mem_clientActs.mp replied⟩)
      · exact Or.inr (Or.inl (mem_clientActs.mp closed))
    · exact Or.inl past
  busy := by
    intro t _ busy
    constructor
    · intro closed
      exact busy (ended_finished (client_run run j) (mem_clientActs.mpr closed) (Or.inl rfl))
    · rintro g ⟨resp, rfl, replied⟩
      exact busy (ended_finished (client_run run j) (mem_clientActs.mpr replied)
        (Or.inr ⟨_, rfl⟩))
  dropped := by
    rintro t g _ closed ⟨resp, rfl, replied⟩
    cases ends_same (client_run run j) (mem_clientActs.mpr closed) (Or.inl rfl)
      (mem_clientActs.mpr replied) (Or.inr ⟨_, rfl⟩)
  single := by
    rintro t g g' _ ⟨resp, rfl, replied⟩ ⟨resp', rfl, replied'⟩
    cases ends_same (client_run run j) (mem_clientActs.mpr replied) (Or.inr ⟨_, rfl⟩)
      (mem_clientActs.mpr replied') (Or.inr ⟨_, rfl⟩)
    rfl
  returns := by
    rintro t g _ ⟨resp, rfl, replied⟩
    refine ⟨plain_response ?_, sent_once replied rfl fun here first there second => ?_⟩
    · obtain ⟨d, inv', _, _, number⟩ := reply_call run few replied
      exact call_nonzero (broker_run run) (few.calls j) number
    · obtain ⟨u, rfl⟩ := sends_response first
      obtain ⟨u', rfl⟩ := sends_response second
      exact reply_frame_once run few here there rfl

/-- Every request is in one place. -/
structure Accounted (env : Env) (debug : BusFrame → String) (procs : Processes)
    (acts : List SystemAct) (s : System) : Prop where
  invokes : ∀ k i inv, .client k (.send i inv) ∈ acts → ∃! p, InvokeAt env debug procs acts s k inv p
  calls : ∀ c j inv, .broker (.send c j inv) ∈ acts → ∃! p, CallAt env debug procs acts s j inv p

/-- No request is lost on the way without a line that has ended, and none is in two places. -/
theorem requests_accounted (run : SystemRun env debug procs acts s) (few : Few acts) :
    Accounted env debug procs acts s where
  invokes := fun _ _ _ sent => (invoke_errand run few sent).stands_one run
  calls := fun _ _ _ sent => (call_errand run few sent).stands_one run

theorem ping_accounted : ∃ s, SystemRun TokimoWire.standardEnv quiet pingProcs pingActs s ∧
    Accounted TokimoWire.standardEnv quiet pingProcs pingActs s := by
  obtain ⟨w, c, run, _⟩ := ping_run
  exact ⟨_, run, requests_accounted run (few_short (by decide))⟩

/-- The Response of an invoke that has queued its Invoke is there, if the invoke waits for it. -/
structure Woken (i : InvokeId) (x : Client) : Prop where
  sent : 4 ≤ (x.invokePhase i).rank
  value : ∀ r, x.invokePhase i = .await r → x.reply i ≠ none

section client
variable {encoder : Encoder} {x x' : Client} {b : ClientAct}

theorem reply_kept (step : ClientStep encoder debug x b x') (there : x.reply i ≠ none) :
    x'.reply i ≠ none := by
  cases step with
  | @response r hit here found =>
    simp only [Client.wake]
    cases hit with
    | none => exact there
    | some j =>
      simp only
      split
      · by_cases eq : i = j
        · subst eq
          simp
        · rwa [Function.update_of_ne eq]
      · exact there
  | _ => exact there

theorem woken_step (step : ClientStep encoder debug x b x') (woken : Woken i x) : Woken i x' := by
  constructor
  · rcases step_invoke_rank step i with same | up
    · rw [same]
      exact woken.sent
    · exact Nat.le_trans woken.sent (Nat.le_of_lt up)
  · intro r now
    rcases step_awaits step now with before | ⟨inv, rfl, _⟩
    · exact reply_kept step (woken.value r before)
    · have early := (TokimoClient.send_rank step).1
      have late := woken.sent
      omega

theorem response_wakes (step : ClientStep encoder debug x (.response resp (some i)) x')
    (sent : 4 ≤ (x.invokePhase i).rank) : Woken i x' := by
  cases step with
  | response here found =>
    refine ⟨sent, fun r now => ?_⟩
    have waits : (x.invokePhase i).active = true := by
      have same : x.invokePhase i = .await r := now
      rw [same]
      rfl
    simp [Client.wake, Client.setPending, waits]

end client

theorem dropped_closed (run : BrokerRun env log w) (spawned : .spawn k inv c ∈ log)
    (dropped : .answerClosed c ∈ log) : ¬ (w.out k).IsOpen := by
  obtain ⟨n, here⟩ := List.mem_iff_getElem?.mp dropped
  obtain ⟨v, v', before, step, rest⟩ := run_at run here
  have origin := (spawned_call run spawned).2
  have whole := run_cons step rest
  cases step with
  | answerClosed app done shut =>
    rw [call_fixed ⟨_, before⟩ whole (by simp [done]), app] at origin
    cases origin
    exact stable_run (p := fun w => ¬ (w.out k).IsOpen) (closed_stable k) ⟨_, before⟩ whole shut

theorem read_woken (run : SystemRun env debug procs acts s) (few : Few acts)
    (sent : .client k (.send i inv) ∈ acts) {hit : Option InvokeId}
    (read : .client k (.response resp hit) ∈ acts) (named : resp.reqId = inv.reqId) :
    Woken i (s.client k) := by
  obtain ⟨n, here⟩ := List.mem_iff_getElem?.mp read
  obtain ⟨i', inv', rfl, sent', named'⟩ := client_response_expected run few here
  obtain ⟨v, v', before, step, rest⟩ := run_at run here
  have client := client_run run k
  have own := (send_frame client (mem_clientActs.mpr sent)).2
  have other := (send_frame client (mem_clientActs.mpr (List.mem_of_mem_take sent'))).2
  rw [named', named] at other
  obtain rfl := RequestTable.number_unique _ client (Nat.le_of_lt (few.invokes k)) own other
  have early : 4 ≤ ((v.client k).invokePhase i).rank :=
    holds_after (p := fun x => 4 ≤ (x.invokePhase i).rank) (invoke_rank_stable i 4)
      (client_run before k) (mem_clientActs.mpr sent') fun _ _ _ one =>
        (TokimoClient.send_rank one).2.ge
  refine stable_run (p := fun s => Woken i (s.client k))
    (client_stable (fun one now => woken_step one now) k) (reachable_step ⟨_, before⟩ step) rest ?_
  cases step with
  | client step =>
    simpa [System.clientMoved] using response_wakes step early

/-- An invoke that waits, without a Response at hand, on a connection whose lines have not ended:
    its request, or the Response to it, is still under way or being worked on. -/
theorem await_moving {r : UInt64} (run : SystemRun env debug procs acts s) (few : Few acts)
    (waits : (s.client k).invokePhase i = .await r) (empty : (s.client k).reply i = none)
    (up : (s.client k).out.IsOpen) (down : (s.world.out k).IsOpen) :
    ∃ inv p, .client k (.send i inv) ∈ acts ∧ inv.reqId = r ∧
      InvokeAt env debug procs acts s k inv p ∧ p.Moving := by
  obtain ⟨inv, sent, named⟩ := await_sent (client_run run k) waits
  have sent := mem_clientActs.mp sent
  have errand := invoke_errand run few sent
  obtain ⟨p, stands, _⟩ := errand.stands_one run
  refine ⟨inv, p, sent, named, stands, ?_⟩
  cases p with
  | out p =>
    cases p with
    | waiting | carried => trivial
    | lost => exact absurd stands.2.1 up
    | arrived => exact absurd rfl stands.1
  | work c => trivial
  | dropped c =>
    obtain ⟨spawned, closed⟩ := stands
    exact absurd down (dropped_closed (broker_run run) (mem_brokerActs.mpr spawned)
      (mem_brokerActs.mpr closed))
  | back c g p =>
    obtain ⟨spawned, ⟨resp, rfl, answered⟩, there⟩ := stands
    cases p with
    | waiting | carried => trivial
    | lost => exact absurd there.1 down
    | arrived =>
      have plain := (errand.returns c _ spawned ⟨resp, rfl, answered⟩).1
      obtain ⟨hit, read⟩ := response_met run plain there
      obtain ⟨inv', spawned', same⟩ := answer_spawned (broker_run run) (mem_brokerActs.mpr answered)
      obtain ⟨_, rfl⟩ := spawn_unique (broker_run run) (mem_brokerActs.mpr spawned) spawned'
      exact absurd empty ((read_woken run few sent read same).value r waits)

def askedActs : List SystemAct :=
  joinedActs ++ (TokimoClient.queueActs 0 (pingInvoke [5]) 1).map (.client 0)

theorem asked_moving : ∃ s inv p, SystemRun TokimoWire.standardEnv quiet pingProcs askedActs s ∧
    InvokeAt TokimoWire.standardEnv quiet pingProcs askedActs s 0 inv p ∧ p.Moving := by
  have asks : Run (ClientStep TokimoWire.toVecNamed quiet) pingClient _ _ :=
    invoke_queues (i := 0) (x := pingInvoke [5]) rfl (Or.inl rfl) (by decide)
  have run : SystemRun TokimoWire.standardEnv quiet pingProcs askedActs _ :=
    run_append ping_joins (@client_moves _ _ _ 0 _ _ _ _ _ _ [] asks rfl)
  obtain ⟨inv, p, _, _, there, moving⟩ := await_moving (k := 0) (i := 0) (r := 1) run
    (few_short (by decide)) rfl rfl (by decide) (by decide)
  exact ⟨_, inv, p, run, there, moving⟩

end TokimoAccounts

import TokimoBus.System
import TokimoBus.ClientCalls

/-!
The streams of the system as pipes. Past the handshake, what one side reads the other
side has queued, and what was queued once is read once.
-/
namespace TokimoSystem
open TokimoFrame TokimoOutbound TokimoBroker TokimoSession TokimoClient TokimoChannel
open TokimoWriter LabelledRuns Pipes
variable {env : Env} {debug : BusFrame → String} {procs : Processes} {s s' : System}
  {x y : SystemAct} {acts : List SystemAct} {k : ConnId} {f : BusFrame} {i j : Nat}

def ofConn (k : ConnId) : Option (ConnId × BusFrame) → Option BusFrame
  | some (j, f) => if j = k then some f else none
  | none => none

theorem ofConn_eq {io : Option (ConnId × BusFrame)} :
    ofConn k io = some f ↔ io = some (k, f) := by
  cases io with
  | none => simp [ofConn]
  | some p =>
    obtain ⟨j, g⟩ := p
    by_cases eq : j = k
    · subst eq
      simp [ofConn]
    · simp [ofConn, eq]

theorem on_eq {g : Option BusFrame} : on j g = some (k, f) ↔ j = k ∧ g = some f := by
  cases g <;> simp [on]

theorem pull_content {pipe : ConnId → List BusFrame} {io : Option (ConnId × BusFrame)}
    (offered : Offers pipe io) (k : ConnId) :
    (ofConn k io).toList ++ pull pipe io k = pipe k := by
  cases io with
  | none => rfl
  | some p =>
    obtain ⟨j, g⟩ := p
    by_cases eq : j = k
    · subst eq
      have head := offered j g rfl
      cases content : pipe j with
      | nil => simp [content] at head
      | cons h rest =>
        simp only [content, List.head?_cons, Option.some.injEq] at head
        subst head
        simp [ofConn, pull, content]
    · simp [ofConn, pull, eq, Function.update_of_ne (Ne.symm eq)]

theorem put_content (pipe : ConnId → List BusFrame) (io : Option (ConnId × BusFrame)) (k : ConnId) :
    put pipe io k = pipe k ++ (ofConn k io).toList := by
  cases io with
  | none => simp [put, ofConn]
  | some p =>
    obtain ⟨j, g⟩ := p
    by_cases eq : j = k
    · subst eq
      simp [ofConn, put]
    · simp [ofConn, put, eq, Function.update_of_ne (Ne.symm eq)]

def SystemAct.brokerIO (io : Act → Option (ConnId × BusFrame)) : SystemAct → Option (ConnId × BusFrame)
  | .broker a => io a
  | .client _ _ => none

def SystemAct.clientIO (io : ClientAct → Option BusFrame) : SystemAct → Option (ConnId × BusFrame)
  | .broker _ => none
  | .client k b => on k (io b)

def upward (env : Env) (debug : BusFrame → String) (procs : Processes) (k : ConnId) :
    Pipe (SystemStep env debug) (System.start procs) BusFrame where
  content := fun s => s.toBroker k
  writes := fun x => ofConn k (x.clientIO clientWrites)
  reads := fun x => ofConn k (x.brokerIO brokerReads)
  empty := rfl
  moves := by
    intro s x s' step
    cases step with
    | broker step offered =>
      simpa [SystemAct.clientIO, SystemAct.brokerIO, ofConn, System.brokerMoved] using
        (pull_content offered k).symm
    | client step offered =>
      simpa [SystemAct.clientIO, SystemAct.brokerIO, ofConn, System.clientMoved] using
        (put_content s.toBroker _ k).symm

def downward (env : Env) (debug : BusFrame → String) (procs : Processes) (k : ConnId) :
    Pipe (SystemStep env debug) (System.start procs) BusFrame where
  content := fun s => s.toClient k
  writes := fun x => ofConn k (x.brokerIO brokerWrites)
  reads := fun x => ofConn k (x.clientIO clientReads)
  empty := rfl
  moves := by
    intro s x s' step
    cases step with
    | broker step offered =>
      simpa [SystemAct.clientIO, SystemAct.brokerIO, ofConn, System.brokerMoved] using
        (put_content s.toClient _ k).symm
    | client step offered =>
      simpa [SystemAct.clientIO, SystemAct.brokerIO, ofConn, System.clientMoved] using
        (pull_content offered k).symm

/-- The frame does not belong to a handshake. -/
structure Plain (f : BusFrame) : Prop where
  hello : ∀ h, f ≠ .hello h
  ack : ∀ a, f ≠ .helloAck a
  rejection : ∀ e, f ≠ rejection e

theorem ofConn_on (j k : ConnId) (f : Option BusFrame) :
    ofConn k (on j f) = if j = k then f else none := by
  cases f <;> simp [on, ofConn]

theorem brokerActs_filterMap (g : Act → Option (ConnId × BusFrame)) (k : ConnId)
    (acts : List SystemAct) : (brokerActs acts).filterMap (fun a => ofConn k (g a)) =
      acts.filterMap (fun x => ofConn k (x.brokerIO g)) := by
  apply filterMap_flatMap
  intro x
  cases x with
  | broker a => exact filterMap_singleton _ _
  | client j b => rfl

theorem clientActs_filterMap (g : ClientAct → Option BusFrame) (k : ConnId)
    (acts : List SystemAct) : (clientActs k acts).filterMap g =
      acts.filterMap (fun x => ofConn k (x.clientIO g)) := by
  apply filterMap_flatMap
  intro x
  cases x with
  | broker a => rfl
  | client j b =>
    simp only [SystemAct.ofClient, SystemAct.clientIO, ofConn_on]
    split
    · exact filterMap_singleton _ _
    · rfl

theorem broker_streamed (k : ConnId) (acts : List Act) :
    (brokerChannel k acts).filterMap ChannelAct.streamed =
      acts.filterMap (fun a => ofConn k (brokerWrites a)) := by
  apply filterMap_flatMap
  intro a
  cases a with
  | reject j f | ack j f | rejectBroken j cut | ackBroken j cut | rollback j | abort j
  | send c j inv | deliver c j ev | answer c j r | shutdownSend c j =>
    by_cases eq : j = k <;> simp [channelActs, queues, brokerWrites, ofConn, eq,
      ChannelAct.streamed]
  | writer j x =>
    cases x <;> by_cases eq : j = k <;>
      simp [channelActs, brokerWrites, ofConn, eq, ChannelAct.streamed]
  | _ => rfl

theorem broker_pushed (k : ConnId) (acts : List Act) :
    pushed (brokerChannel k acts) = acts.filterMap (fun a => ofConn k (queues a)) := by
  apply filterMap_flatMap
  intro a
  cases a with
  | reject j f | ack j f | rejectBroken j cut | ackBroken j cut | rollback j | abort j
  | writer j x | send c j inv | deliver c j ev | answer c j r | shutdownSend c j =>
    by_cases eq : j = k <;> simp [channelActs, queues, ofConn, eq, ChannelAct.sends]
  | _ => rfl

theorem client_streamed (steps : List ClientAct) :
    (clientChannel steps).filterMap ChannelAct.streamed = steps.filterMap clientWrites := by
  apply filterMap_flatMap
  intro b
  cases b with
  | writer x => cases x <;> rfl
  | _ => rfl

theorem client_pushed (steps : List ClientAct) :
    pushed (clientChannel steps) = steps.filterMap ClientAct.sends := by
  apply filterMap_flatMap
  intro b
  cases b <;> rfl

theorem broker_shakes {acts : List Act} {w : World} (run : BrokerRun env acts w)
    (mem : f ∈ directed (brokerChannel k acts)) :
    (∃ g, f = .helloAck g) ∨ .reject k f ∈ acts ∧ ∃ e, f = rejection e := by
  obtain ⟨b, inside, same⟩ := List.mem_filterMap.mp mem
  obtain ⟨a, there, found⟩ := List.mem_flatMap.mp inside
  obtain ⟨i, here⟩ := List.mem_iff_getElem?.mp there
  obtain ⟨v, v', _, one, _⟩ := run_at run here
  have shaken : (∃ j e, a = .reject j (rejection e)) ∨ (∃ j g, a = .ack j (.helloAck g)) ∨
      (channelActs k a).filterMap ChannelAct.writes = [] := by
    cases one with
    | reject => exact Or.inl ⟨_, _, rfl⟩
    | ack _ frame =>
      subst frame
      exact Or.inr (Or.inl ⟨_, _, rfl⟩)
    | rejectBroken | ackBroken | rollback | abort | writer =>
      simp only [channelActs]
      split <;> simp [ChannelAct.writes]
    | deliver | send | answer | shutdownSend =>
      simp only [channelActs, queues]
      split <;> simp [ChannelAct.writes]
    | _ => exact Or.inr (Or.inr rfl)
  rcases shaken with ⟨j, e, rfl⟩ | ⟨j, g, rfl⟩ | none
  · simp only [channelActs] at found
    split at found
    · rename_i own
      subst own
      obtain rfl := List.mem_singleton.mp found
      simp only [ChannelAct.writes, Option.some.injEq] at same
      subst same
      exact Or.inr ⟨there, e, rfl⟩
    · cases found
  · simp only [channelActs] at found
    split at found
    · simp only [List.mem_cons, List.not_mem_nil, or_false] at found
      rcases found with rfl | rfl
      · simp only [ChannelAct.writes, Option.some.injEq] at same
        exact Or.inl ⟨g, same.symm⟩
      · cases same
    · cases found
  · have inside : f ∈ (channelActs k a).filterMap ChannelAct.writes :=
      List.mem_filterMap.mpr ⟨b, found, same⟩
    rw [none] at inside
    cases inside

theorem broker_directed {acts : List Act} {w : World} (run : BrokerRun env acts w)
    (ack : ∀ g, f ≠ .helloAck g) (kept : .reject k f ∉ acts) :
    (directed (brokerChannel k acts)).count f = 0 := by
  rw [List.count_eq_zero]
  intro mem
  rcases broker_shakes run mem with ⟨g, same⟩ | ⟨rejected, _⟩
  · exact ack g same
  · exact kept rejected

theorem client_greets {steps : List ClientAct} (mem : f ∈ directed (clientChannel steps)) :
    .greet f ∈ steps := by
  have each : ∀ b : ClientAct, (clientChannelActs b).filterMap ChannelAct.writes =
      (match b with | .greet g => some g | _ => none : Option BusFrame).toList := by
    intro b
    cases b <;> rfl
  rw [directed, clientChannel, filterMap_flatMap each] at mem
  obtain ⟨b, there, same⟩ := List.mem_filterMap.mp mem
  cases b with
  | greet g =>
    simp only [Option.some.injEq] at same
    rwa [← same]
  | _ => cases same

theorem client_directed {steps : List ClientAct} {c : Client} {hello : HelloRequest}
    {handlers : String → Option HandlerId} {encoder : Encoder}
    (run : ClientRun encoder debug hello handlers steps c) (greeting : ∀ h, f ≠ .hello h) :
    (directed (clientChannel steps)).count f = 0 := by
  rw [List.count_eq_zero]
  intro mem
  exact greeting _ (greet_hello run (client_greets mem))

theorem count_ofConn (g : SystemAct → Option (ConnId × BusFrame)) (acts : List SystemAct)
    (f : BusFrame) : (acts.filterMap (fun x => ofConn k (g x))).count f =
      acts.countP fun x => g x = some (k, f) := by
  rw [List.count_filterMap]
  apply List.countP_congr
  intro x _
  simp [ofConn_eq]

/-- The process at connection `k` reads a frame at most as often as the broker queued it. -/
theorem client_reads_bound (run : SystemRun env debug procs acts s) (ack : ∀ g, f ≠ .helloAck g)
    (kept : .broker (.reject k f) ∉ acts) :
    (acts.filterMap (downward env debug procs k).reads).count f ≤
      (acts.filterMap fun x => ofConn k (x.brokerIO queues)).count f := by
  have part := broker_run run
  have read := count_read_le (downward env debug procs k) run f
  have stream := streamed_le (broker_channel_run part k) f
  have past := broker_directed part ack fun mem => kept (mem_brokerActs.mp mem)
  rw [past, broker_streamed, broker_pushed, brokerActs_filterMap, brokerActs_filterMap,
    Nat.zero_add] at stream
  exact Nat.le_trans read stream

theorem broker_reads_bound (run : SystemRun env debug procs acts s) (greeting : ∀ h, f ≠ .hello h)
    (k : ConnId) : (acts.filterMap (upward env debug procs k).reads).count f ≤
      (acts.filterMap fun x => ofConn k (x.clientIO ClientAct.sends)).count f := by
  have part := client_run run k
  have read := count_read_le (upward env debug procs k) run f
  have stream := streamed_le (client_channel_run part) f
  rw [client_directed part greeting, client_streamed, client_pushed, clientActs_filterMap,
    clientActs_filterMap, Nat.zero_add] at stream
  exact Nat.le_trans read stream

theorem unrejected (run : SystemRun env debug procs acts s) (plain : ∀ e, f ≠ rejection e) :
    .broker (.reject k f) ∉ acts := by
  intro mem
  obtain ⟨n, here⟩ := List.mem_iff_getElem?.mp (mem_brokerActs.mpr mem)
  obtain ⟨v, v', _, one, _⟩ := run_at (broker_run run) here
  cases one with
  | reject => exact plain _ rfl

theorem client_reads_le (run : SystemRun env debug procs acts s) (plain : Plain f) (k : ConnId) :
    (acts.filterMap (downward env debug procs k).reads).count f ≤
      acts.countP fun x => x.brokerIO queues = some (k, f) := by
  rw [← count_ofConn]
  exact client_reads_bound run plain.ack (unrejected run plain.rejection)

theorem broker_reads_le (run : SystemRun env debug procs acts s) (plain : Plain f) (k : ConnId) :
    (acts.filterMap (upward env debug procs k).reads).count f ≤
      acts.countP fun x => x.clientIO ClientAct.sends = some (k, f) := by
  rw [← count_ofConn]
  exact broker_reads_bound run plain.hello k

theorem downward_reads {b : ClientAct} :
    (downward env debug procs k).reads (.client k b) = clientReads b := by
  simp [downward, SystemAct.clientIO, ofConn_on]

theorem upward_reads {a : Act} :
    (upward env debug procs k).reads (.broker a) = some f ↔ brokerReads a = some (k, f) :=
  ofConn_eq

theorem client_read_queued (run : SystemRun env debug procs acts s) (plain : Plain f)
    {b : ClientAct} (mem : .client k b ∈ acts) (read : clientReads b = some f) :
    ∃ a, .broker a ∈ acts ∧ queues a = some (k, f) := by
  have found : f ∈ acts.filterMap (downward env debug procs k).reads :=
    List.mem_filterMap.mpr ⟨_, mem, by rw [downward_reads, read]⟩
  have many := Nat.lt_of_lt_of_le (List.count_pos_iff.mpr found) (client_reads_le run plain k)
  obtain ⟨x, there, queued⟩ := List.countP_pos_iff.mp many
  cases x with
  | broker a => exact ⟨a, there, of_decide_eq_true queued⟩
  | client j b => simp [SystemAct.brokerIO] at queued

theorem broker_read_queued (run : SystemRun env debug procs acts s) (plain : Plain f) {a : Act}
    (mem : .broker a ∈ acts) (read : brokerReads a = some (k, f)) :
    ∃ b, .client k b ∈ acts ∧ b.sends = some f := by
  have found : f ∈ acts.filterMap (upward env debug procs k).reads :=
    List.mem_filterMap.mpr ⟨_, mem, upward_reads.mpr read⟩
  have many := Nat.lt_of_lt_of_le (List.count_pos_iff.mpr found) (broker_reads_le run plain k)
  obtain ⟨x, there, queued⟩ := List.countP_pos_iff.mp many
  have queued := of_decide_eq_true queued
  cases x with
  | broker a => cases queued
  | client j b =>
    obtain ⟨rfl, sent⟩ := on_eq.mp queued
    exact ⟨b, there, sent⟩

theorem client_read_once (run : SystemRun env debug procs acts s) (plain : Plain f)
    (once : ∀ {i j : Nat} {a a' : Act}, acts[i]? = some (.broker a) → queues a = some (k, f) →
      acts[j]? = some (.broker a') → queues a' = some (k, f) → i = j)
    {b b' : ClientAct} (here : acts[i]? = some (.client k b)) (read : clientReads b = some f)
    (there : acts[j]? = some (.client k b')) (read' : clientReads b' = some f) : i = j := by
  have few : acts.countP (fun x => x.brokerIO queues = some (k, f)) ≤ 1 := by
    apply countP_le_one
    intro i j x y here queued there queued'
    have queued := of_decide_eq_true queued
    have queued' := of_decide_eq_true queued'
    cases x with
    | client => cases queued
    | broker a =>
      cases y with
      | client => cases queued'
      | broker a' => exact once here queued there queued'
  have reads := Nat.le_trans (client_reads_le run plain k) few
  rw [List.count_filterMap] at reads
  exact once_of_countP reads here (by simp [downward_reads, read]) there
    (by simp [downward_reads, read'])

theorem broker_read_once (run : SystemRun env debug procs acts s) (plain : Plain f)
    (once : ∀ {i j : Nat} {b b' : ClientAct}, acts[i]? = some (.client k b) → b.sends = some f →
      acts[j]? = some (.client k b') → b'.sends = some f → i = j)
    {a a' : Act} (here : acts[i]? = some (.broker a)) (read : brokerReads a = some (k, f))
    (there : acts[j]? = some (.broker a')) (read' : brokerReads a' = some (k, f)) : i = j := by
  have few : acts.countP (fun x => x.clientIO ClientAct.sends = some (k, f)) ≤ 1 := by
    apply countP_le_one
    intro i j x y here queued there queued'
    have queued := of_decide_eq_true queued
    have queued' := of_decide_eq_true queued'
    cases x with
    | broker => cases queued
    | client l b =>
      cases y with
      | broker => cases queued'
      | client l' b' =>
        obtain ⟨rfl, first⟩ := on_eq.mp queued
        obtain ⟨rfl, second⟩ := on_eq.mp queued'
        exact once here first there second
  have reads := Nat.le_trans (broker_reads_le run plain k) few
  rw [List.count_filterMap] at reads
  exact once_of_countP reads here (by simpa using upward_reads.mpr read) there
    (by simpa using upward_reads.mpr read')

end TokimoSystem

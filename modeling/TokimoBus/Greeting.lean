import TokimoBus.EndToEnd

/-!
The handshake of a connection. A session is listed, and so may be sent frames, before its Hello
is acknowledged; but its writer is spawned after the acknowledgement was written. What the
broker puts on a connection is nothing, one rejection, or the acknowledgement and then what was
queued, from the first frame on.
-/
namespace TokimoGreeting
open TokimoFrame TokimoOutbound TokimoBroker TokimoSession TokimoChannel TokimoWriter
open TokimoProgress TokimoClient TokimoSystem LabelledRuns Pipes
open TokimoWire (standardEnv)
variable {env : Env} {w w' : World} {a : Act} {acts : List Act} {k : ConnId} {s : Session}
  {e : BusError} {h : HelloRequest}

def speaks (k : ConnId) : Act → Bool
  | .reject j _ | .rejectBroken j _ | .ack j _ | .ackBroken j _ => j = k
  | _ => false

inductive Rejects (acts : List Act) (k : ConnId) : BusError → Prop where
  | version {h : HelloRequest} (read : .hello k h ∈ acts)
      (other : h.protocol.major ≠ ProtocolVersion.current.major) :
      Rejects acts k (.protocolMismatch ProtocolVersion.current h.protocol)
  | token {h : HelloRequest} (read : .hello k h ∈ acts) (spent : .consume k h false ∈ acts) :
      Rejects acts k .invalidAuthToken

theorem rejects_append (rejects : Rejects acts k e) (rest : List Act) :
    Rejects (acts ++ rest) k e := by
  cases rejects with
  | version read other => exact .version (List.mem_append_left _ read) other
  | token read spent => exact .token (List.mem_append_left _ read) (List.mem_append_left _ spent)

/-- What a task of `serve` has written to the stream itself, by where it stands. -/
inductive Said (env : Env) (acts : List Act) (k : ConnId) : Phase → List Act → Prop where
  | unused : Said env acts k .unused []
  | handshake : Said env acts k .handshake []
  | check {h : HelloRequest} (read : .hello k h ∈ acts) : Said env acts k (.check h) []
  | reject {e : BusError} (cause : Rejects acts k e) : Said env acts k (.reject e) []
  | unheard : Said env acts k .refused []
  | rejected {e : BusError} (cause : Rejects acts k e) :
      Said env acts k .refused [.reject k (rejection e)]
  | unrejected {e : BusError} {cut : Bytes} (cause : Rejects acts k e)
      (part : cut <+: frameBytes env.toVecNamed (rejection e)) :
      Said env acts k .refused [.rejectBroken k cut]
  | admitted {h : HelloRequest} (read : .hello k h ∈ acts) : Said env acts k (.admitted h) []
  | numbered {h : HelloRequest} {id : UInt64} (read : .hello k h ∈ acts) :
      Said env acts k (.numbered h id) []
  | publish {s : Session} (read : .hello k s.hello ∈ acts) : Said env acts k (.live s .publish) []
  | ack {s : Session} (read : .hello k s.hello ∈ acts) (listed : .publish k (s.entry k) ∈ acts) :
      Said env acts k (.live s .ack) []
  | acked {s : Session} {stage : Stage} (read : .hello k s.hello ∈ acts)
      (listed : .publish k (s.entry k) ∈ acts) (later : 6 < stage.rank) :
      Said env acts k (.live s stage) [.ack k (ackOf env s)]
  | unacked {s : Session} {stage : Stage} {cut : Bytes} (read : .hello k s.hello ∈ acts)
      (listed : .publish k (s.entry k) ∈ acts) (later : 6 < stage.rank)
      (part : cut <+: frameBytes env.toVecNamed (ackOf env s)) :
      Said env acts k (.live s stage) [.ackBroken k cut]

theorem said_append {p : Phase} {said : List Act} (known : Said env acts k p said) (rest : List Act) :
    Said env (acts ++ rest) k p said := by
  have kept : ∀ {b : Act}, b ∈ acts → b ∈ acts ++ rest := fun mem => List.mem_append_left _ mem
  cases known with
  | unused => exact .unused
  | handshake => exact .handshake
  | check read => exact .check (kept read)
  | reject cause => exact .reject (rejects_append cause rest)
  | unheard => exact .unheard
  | rejected cause => exact .rejected (rejects_append cause rest)
  | unrejected cause part => exact .unrejected (rejects_append cause rest) part
  | admitted read => exact .admitted (kept read)
  | numbered read => exact .numbered (kept read)
  | publish read => exact .publish (kept read)
  | ack read listed => exact .ack (kept read) (kept listed)
  | acked read listed later => exact .acked (kept read) (kept listed) later
  | unacked read listed later part => exact .unacked (kept read) (kept listed) later part

theorem said_later {stage next : Stage} {said : List Act}
    (known : Said env acts k (.live s stage) said) (before : 6 < stage.rank) (after : 6 < next.rank) :
    Said env acts k (.live s next) said := by
  cases known with
  | publish | ack => simp [Stage.rank] at before
  | acked read listed => exact .acked read listed after
  | unacked read listed _ part => exact .unacked read listed after part

theorem said_step {said : List Act} (step : Step env w a w')
    (known : Said env acts k (w.phase k) said) :
    Said env (acts ++ [a]) k (w'.phase k) (said ++ [a].filter (speaks k)) := by
  have stays : ∀ {b : Act} {p : Phase}, speaks k b = false → p = w.phase k →
      Said env (acts ++ [b]) k p (said ++ [b].filter (speaks k)) := by
    intro b p quiet same
    rw [same, List.filter_singleton, quiet]
    simpa using said_append known [b]
  have moved : ∀ {b : Act} {j : ConnId} {p q : Phase}, w.phase j = q →
      (j ≠ k → speaks k b = false) →
      (j = k → Said env acts k q said →
        Said env (acts ++ [b]) k p (said ++ [b].filter (speaks k))) →
      Said env (acts ++ [b]) k (Function.update w.phase j p k)
        (said ++ [b].filter (speaks k)) := by
    intro b j p q here quiet own
    by_cases eq : j = k
    · rw [eq, Function.update_self]
      apply own eq
      rwa [← here, eq]
    · rw [Function.update_of_ne (Ne.symm eq)]
      exact stays (quiet eq) rfl
  have within : ∀ {b : Act} {j : ConnId} {s : Session} {stage next : Stage},
      w.phase j = .live s stage → speaks k b = false → 6 < stage.rank → 6 < next.rank →
      Said env (acts ++ [b]) k (Function.update w.phase j (.live s next) k)
        (said ++ [b].filter (speaks k)) := by
    intro b j s stage next here quiet before after
    refine moved here (fun _ => quiet) fun _ known => ?_
    rw [List.filter_singleton, quiet]
    simpa using said_append (said_later known before after) [b]
  cases step with
  | accept here =>
    refine moved here (fun _ => rfl) fun _ known => ?_
    cases known
    exact .handshake
  | noHello here =>
    refine moved here (fun _ => rfl) fun _ known => ?_
    cases known
    exact .unheard
  | @hello j h here =>
    refine moved here (fun _ => rfl) fun eq known => ?_
    subst eq
    cases known
    unfold helloPhase
    split
    next other => exact .reject (.version (by simp) other)
    next => exact .check (by simp)
  | @consume j h ok here =>
    refine moved here (fun _ => rfl) fun eq known => ?_
    subst eq
    cases known with
    | check read =>
      cases ok with
      | true => exact .admitted (List.mem_append_left _ read)
      | false => exact .reject (.token (List.mem_append_left _ read) (by simp))
  | @reject j e here =>
    refine moved here (fun ne => by simpa [speaks] using ne) fun eq known => ?_
    subst eq
    cases known with
    | reject cause => simpa [speaks] using Said.rejected (rejects_append cause _)
  | @rejectBroken j e cut here part =>
    refine moved here (fun ne => by simpa [speaks] using ne) fun eq known => ?_
    subst eq
    cases known with
    | reject cause => simpa [speaks] using Said.unrejected (rejects_append cause _) part
  | clientId here =>
    refine moved here (fun _ => rfl) fun _ known => ?_
    cases known with
    | admitted read => exact .numbered (List.mem_append_left _ read)
  | generate here named =>
    refine moved here (fun _ => rfl) fun _ known => ?_
    subst named
    cases known with
    | numbered read => exact .publish (List.mem_append_left _ read)
  | @publish j s here =>
    refine moved here (fun _ => rfl) fun eq known => ?_
    subst eq
    cases known with
    | publish read => exact .ack (List.mem_append_left _ read) (by simp)
    | acked _ _ later | unacked _ _ later => simp [Stage.rank] at later
  | @ack j s f here frame =>
    refine moved here (fun ne => by simpa [speaks] using ne) fun eq known => ?_
    subst eq
    obtain rfl : f = ackOf env s := frame
    cases known with
    | ack read listed =>
      have now : Said env (acts ++ [.ack j (ackOf env s)]) j (.live s .attach)
          [.ack j (ackOf env s)] :=
        .acked (List.mem_append_left _ read) (List.mem_append_left _ listed) (by simp [Stage.rank])
      simpa [speaks] using now
    | acked _ _ later | unacked _ _ later => simp [Stage.rank] at later
  | @ackBroken j s cut here part =>
    refine moved here (fun ne => by simpa [speaks] using ne) fun eq known => ?_
    subst eq
    cases known with
    | ack read listed =>
      have now : Said env (acts ++ [.ackBroken j cut]) j (.live s .rollback) [.ackBroken j cut] :=
        .unacked (List.mem_append_left _ read) (List.mem_append_left _ listed) (by simp [Stage.rank])
          part
      simpa [speaks] using now
    | acked _ _ later | unacked _ _ later => simp [Stage.rank] at later
  | target here =>
    refine within here rfl (by simp [Stage.rank]) ?_
    unfold targetStage
    split <;> simp [Stage.rank]
  | check here =>
    refine within here rfl (by simp [Stage.rank]) ?_
    split <;> simp [Stage.rank]
  | rollback here | attach here | probe here | fanout here | deliver here | undelivered here
  | fanned here | hangup here | detach here | forget here | removeIf here | abort here =>
    exact within here rfl (by simp [Stage.rank]) (by simp [Stage.rank])
  | _ => exact stays rfl rfl

theorem said (run : BrokerRun env acts w) (k : ConnId) :
    Said env acts k (w.phase k) (acts.filter (speaks k)) := by
  induction run with
  | nil => exact .unused
  | snoc _ step ih =>
    rw [List.filter_append]
    exact said_step step ih

theorem shaken (k : ConnId) (acts : List Act) :
    (brokerChannel k acts).filter ChannelAct.shakes =
      (acts.filter (speaks k)).flatMap (channelActs k) := by
  induction acts with
  | nil => rfl
  | cons a acts ih =>
    rw [brokerChannel, List.flatMap_cons, List.filter_append]
    rw [brokerChannel] at ih
    rw [ih]
    have each : ∀ {b : Act} {xs : List ChannelAct}, speaks k b = false →
        xs.filter ChannelAct.shakes = [] →
        xs.filter ChannelAct.shakes ++ (acts.filter (speaks k)).flatMap (channelActs k) =
          ((b :: acts).filter (speaks k)).flatMap (channelActs k) := by
      intro b xs quiet empty
      rw [empty, List.filter_cons, quiet]
      rfl
    cases a with
    | reject j f | rejectBroken j cut | ack j f | ackBroken j cut =>
      by_cases eq : j = k
      · simp only [channelActs, speaks, eq, ↓reduceIte, decide_true, List.filter_cons_of_pos,
          List.flatMap_cons]
        rfl
      · simp [channelActs, speaks, eq]
    | rollback j | abort j | writer j x | deliver j' j | send c j | answer c j
    | shutdownSend n j =>
      refine each rfl ?_
      by_cases eq : j = k <;> simp [channelActs, queues, eq, ChannelAct.shakes]
    | _ => exact each rfl rfl

structure Wire (env : Env) (acts : List Act) (w : World) (k : ConnId) (said : List Act) : Prop where
  mute : .spawn ∉ said.flatMap (channelActs k) → (w.out k).wire env.toVecNamed =
    (directed (said.flatMap (channelActs k))).flatMap (frameBytes env.toVecNamed) ++
      ((said.flatMap (channelActs k)).filterMap ChannelAct.tears).getLastD []
  whole : (said.flatMap (channelActs k)).filterMap ChannelAct.tears = [] →
    (w.out k).wire env.toVecNamed <+:
      (directed (said.flatMap (channelActs k))).flatMap (frameBytes env.toVecNamed) ++
        (pushed (brokerChannel k acts)).flatMap (frameBytes env.toVecNamed)

theorem wire_said (run : BrokerRun env acts w) (k : ConnId) :
    Wire env acts w k (acts.filter (speaks k)) := by
  have channel := broker_channel_run run k
  constructor
  · intro asleep
    rw [← shaken] at asleep ⊢
    rw [directed_shakes, tears_shakes]
    refine wire_unspawned channel fun mem => asleep ?_
    exact List.mem_filter.mpr ⟨mem, rfl⟩
  · intro untorn
    rw [← shaken] at untorn ⊢
    rw [tears_shakes] at untorn
    rw [directed_shakes]
    exact wire_prefix channel untorn

theorem told_reject (f : BusFrame) : [Act.reject k f].flatMap (channelActs k) = [.direct f] := by
  simp [channelActs]

theorem told_ack (f : BusFrame) :
    [Act.ack k f].flatMap (channelActs k) = [.direct f, .spawn] := by
  simp [channelActs]

theorem cut_reject (cut : Bytes) :
    [Act.rejectBroken k cut].flatMap (channelActs k) = [.tear cut] := by
  simp [channelActs]

theorem cut_ack (cut : Bytes) : [Act.ackBroken k cut].flatMap (channelActs k) = [.tear cut] := by
  simp [channelActs]

/-- What the broker has put on a connection. -/
inductive Answer (env : Env) (acts : List Act) (w : World) (k : ConnId) : Prop where
  | nothing (silent : (w.out k).wire env.toVecNamed = [])
  | rejection {e : BusError} (cause : Rejects acts k e) (apart : w.session k = none)
      (bytes : (w.out k).wire env.toVecNamed <+: frameBytes env.toVecNamed (rejection e))
  | session {s : Session} (session : w.session k = some s) (read : .hello k s.hello ∈ acts)
      (listed : .publish k (s.entry k) ∈ acts)
      (bytes : (w.out k).wire env.toVecNamed <+: frameBytes env.toVecNamed (ackOf env s) ++
        (pushed (brokerChannel k acts)).flatMap (frameBytes env.toVecNamed))

theorem answer (run : BrokerRun env acts w) (k : ConnId) : Answer env acts w k := by
  have known := said run k
  have wire := wire_said run k
  generalize acts.filter (speaks k) = spoken at known wire
  generalize here : w.phase k = p at known
  have silent : spoken = [] → Answer env acts w k := by
    rintro rfl
    exact .nothing (wire.mute (by simp))
  obtain ⟨mute, whole⟩ := wire
  cases known with
  | rejected cause =>
    rw [told_reject] at mute
    refine .rejection cause (by rw [World.session, here]; rfl) ?_
    rw [mute (by simp)]
    simp [directed, ChannelAct.writes, ChannelAct.tears]
  | unrejected cause part =>
    rw [cut_reject] at mute
    refine .rejection cause (by rw [World.session, here]; rfl) ?_
    rw [mute (by simp)]
    exact part
  | @acked s _ read listed =>
    rw [told_ack] at whole
    refine .session (by rw [World.session, here]; rfl) read listed ?_
    have bytes := whole rfl
    have alone : directed [.direct (ackOf env s), .spawn] = [ackOf env s] := rfl
    rwa [alone, List.flatMap_singleton] at bytes
  | unacked read listed _ part =>
    rw [cut_ack] at mute
    refine .session (by rw [World.session, here]; rfl) read listed ?_
    rw [mute (by simp)]
    exact List.IsPrefix.trans part (List.prefix_append _ _)
  | _ => exact silent rfl

theorem unheard_silent (run : BrokerRun env acts w) (unheard : ∀ h, .hello k h ∉ acts) :
    (w.out k).wire env.toVecNamed = [] := by
  cases answer run k with
  | nothing silent => exact silent
  | rejection cause =>
    cases cause with
    | version read | token read => exact absurd read (unheard _)
  | session _ read => exact absurd read (unheard _)

/-- The first frame that the broker writes on a connection. -/
theorem first_written (run : BrokerRun env acts w) {f : BusFrame} {rest : List BusFrame}
    (stream : (brokerChannel k acts).filterMap ChannelAct.streamed = f :: rest) :
    (∃ e, Rejects acts k e ∧ f = rejection e ∧ .reject k f ∈ acts) ∨
      ∃ s, w.session k = some s ∧ .publish k (s.entry k) ∈ acts ∧ f = ackOf env s ∧
        .ack k f ∈ acts := by
  have channel := broker_channel_run run k
  rw [(streamed_parts channel).1, ← directed_shakes, shaken] at stream
  have known := said run k
  have kept : ∀ {b : Act}, b ∈ acts.filter (speaks k) → b ∈ acts :=
    fun mem => (List.mem_filter.mp mem).1
  have asleep : .spawn ∉ (acts.filter (speaks k)).flatMap (channelActs k) →
      wrote (brokerChannel k acts) = [] := by
    intro none
    refine (silent channel fun mem => none ?_).unwritten
    rw [← shaken]
    exact List.mem_filter.mpr ⟨mem, rfl⟩
  generalize acts.filter (speaks k) = spoken at known stream kept asleep
  generalize here : w.phase k = p at known
  cases known with
  | rejected cause =>
    rw [told_reject] at stream asleep
    rw [asleep (by simp), List.append_nil] at stream
    cases stream
    exact Or.inl ⟨_, cause, rfl, kept (by simp)⟩
  | @acked s _ _ listed =>
    rw [told_ack] at stream
    cases stream
    refine Or.inr ⟨s, ?_, listed, rfl, kept (by simp)⟩
    rw [World.session, here]
    rfl
  | unrejected =>
    rw [cut_reject] at stream asleep
    rw [asleep (by simp)] at stream
    cases stream
  | unacked =>
    rw [cut_ack] at stream asleep
    rw [asleep (by simp)] at stream
    cases stream
  | _ =>
    rw [asleep (by simp)] at stream
    cases stream

theorem rejected_alone (run : BrokerRun env acts w) (told : .reject k (rejection e) ∈ acts) :
    w.session k = none ∧ ∀ e', .reject k (rejection e') ∈ acts → e' = e := by
  have known := said run k
  have mine : ∀ {e : BusError}, .reject k (rejection e) ∈ acts →
      .reject k (rejection e) ∈ acts.filter (speaks k) :=
    fun mem => List.mem_filter.mpr ⟨mem, by simp [speaks]⟩
  have first := mine told
  constructor
  · generalize acts.filter (speaks k) = spoken at known first
    rw [World.session]
    generalize w.phase k = p at known
    cases known with
    | acked | unacked => simp at first
    | publish | ack => cases first
    | _ => rfl
  · intro e' told'
    have second := mine told'
    generalize acts.filter (speaks k) = spoken at known first second
    generalize w.phase k = p at known
    cases known with
    | rejected =>
      simp only [List.mem_cons, List.not_mem_nil, or_false, Act.reject.injEq, true_and] at first second
      rw [← first] at second
      cases second
      rfl
    | acked | unacked | unrejected => simp at first
    | _ => cases first

section
variable {debug : BusFrame → String} {procs : Processes} {sys : System}
  {steps : List SystemAct} {f : BusFrame} {i : Nat} {b : ClientAct} {c : Client}
  {encoder : Encoder} {handlers : String → Option HandlerId} {trace : List ClientAct}

theorem greeting_unread (run : ClientRun encoder debug h handlers trace c)
    (early : c.runner.rank ≤ 1) : trace.filterMap clientReads = [] := by
  induction run with
  | nil => rfl
  | @snoc trace c c' b before step ih =>
    have earlier := Nat.le_trans (step_runner_rank step) early
    rw [filterMap_snoc, ih earlier]
    cases step with
    | acked | refused => simp [Client.setRunner, Client.setHolds, Runner.rank] at early
    | ping here | pingClosed here | shutdownFrame here | invoke here | response here
    | ignore here => simp [here, Runner.rank] at earlier
    | _ => rfl

theorem reply_first (run : SystemRun env debug procs steps sys)
    (here : steps[i]? = some (.client k b)) (reads : clientReads b = some f)
    (greets : ∀ c c', ClientStep env.toVecNamed debug c b c' → c.runner = .greeting) :
    ∃ v, SystemRun env debug procs (steps.take i) v ∧
      Run (SystemStep env debug) v (steps.drop i) sys ∧ ∃ rest,
      (brokerChannel k (brokerActs (steps.take i))).filterMap ChannelAct.streamed = f :: rest := by
  obtain ⟨v, v', before, step, after⟩ := run_at run here
  have onward : Run (SystemStep env debug) v (steps.drop i) sys := by
    obtain ⟨inside, value⟩ := List.getElem?_eq_some_iff.mp here
    rw [List.drop_eq_getElem_cons inside, value]
    exact run_cons step after
  refine ⟨v, before, onward, (downward env debug procs k).content v', ?_⟩
  have whole := written_eq (downward env debug procs k) (before.snoc step)
  have unread : (steps.take i).filterMap (downward env debug procs k).reads = [] := by
    have none := greeting_unread (client_run before k) (by
      cases step with
      | client step => simp [greets _ _ step, Runner.rank])
    rwa [clientActs_filterMap] at none
  rw [filterMap_snoc, filterMap_snoc, unread] at whole
  have silent : (downward env debug procs k).writes (.client k b) = none := rfl
  have now : (downward env debug procs k).reads (.client k b) = some f := by
    rw [downward_reads, reads]
  rw [silent, now, Option.toList_none, List.append_nil, Option.toList_some, List.nil_append] at whole
  rw [broker_streamed, brokerActs_filterMap]
  exact whole

theorem system_session_keeps : Stable (SystemStep env debug) (System.start procs)
    fun v => v.world.session k = some s := by
  intro v x v' _ step now
  cases step with
  | broker step => exact session_keeps step now
  | client => exact now

/-- What the two sides of a connection make of the handshake. -/
structure Agreement (env : Env) (debug : BusFrame → String) (procs : Processes)
    (steps : List SystemAct) (sys : System) (k : ConnId) : Prop where
  acked : ∀ i a, steps[i]? = some (.client k (.acked a)) → ∃ s, sys.world.session k = some s ∧
    s.hello = procs.hello k ∧ a = ⟨s.clientId, env.config.heartbeatInterval⟩ ∧
    .broker (.publish k (s.entry k)) ∈ steps.take i ∧ .broker (.ack k (.helloAck a)) ∈ steps.take i
  refused : ∀ i f e, steps[i]? = some (.client k (.refused (some f) e)) → f = rejection e ∧
    Rejects (brokerActs (steps.take i)) k e ∧ .broker (.reject k f) ∈ steps.take i
  delivered : ∀ e, .broker (.reject k (rejection e)) ∈ steps →
    (∀ a, .client k (.acked a) ∉ steps) ∧ ∀ f e', .client k (.refused (some f) e') ∈ steps → e' = e
  returned : ∀ e, (sys.client k).runner = .greeting →
    (sys.toClient k).head? = some (rejection e) →
    (∃ sys', SystemStep env debug sys (.client k (.refused (some (rejection e)) e)) sys') ∧
      ∀ b sys', SystemStep env debug sys (.client k b) sys' → clientReads b ≠ none →
        b = .refused (some (rejection e)) e ∧ (sys'.client k).runner = .failed e

theorem acked_registered (run : SystemRun env debug procs steps sys) {a : HelloAck}
    (here : steps[i]? = some (.client k (.acked a))) : ∃ s, sys.world.session k = some s ∧
      s.hello = procs.hello k ∧ a = ⟨s.clientId, env.config.heartbeatInterval⟩ ∧
      .broker (.publish k (s.entry k)) ∈ steps.take i ∧
      .broker (.ack k (.helloAck a)) ∈ steps.take i := by
  obtain ⟨v, before, onward, rest, stream⟩ := reply_first run here rfl (by
    intro c c' step
    cases step with
    | acked waiting => exact waiting)
  rcases first_written (broker_run before) stream with ⟨e, _, same, _⟩ | ⟨s, session, listed, same, told⟩
  · cases same
  · cases same
    have later := stable_run system_session_keeps ⟨_, before⟩ onward session
    exact ⟨s, later, session_hello run later, rfl, mem_brokerActs.mp listed, mem_brokerActs.mp told⟩

theorem refused_rejected (run : SystemRun env debug procs steps sys)
    (here : steps[i]? = some (.client k (.refused (some f) e))) : f = rejection e ∧
      Rejects (brokerActs (steps.take i)) k e ∧ .broker (.reject k f) ∈ steps.take i := by
  obtain ⟨v, before, onward, rest, stream⟩ := reply_first run here rfl (by
    intro c c' step
    cases step with
    | refused waiting => exact waiting)
  obtain ⟨u, u', _, step, _⟩ := run_at run here
  have cause : refusal debug (some f) = some e := by
    cases step with
    | client step =>
      cases step with
      | refused _ cause => exact cause
  rcases first_written (broker_run before) stream with ⟨e', rejects, same, told⟩ | ⟨s, _, _, same, _⟩
  · subst same
    cases cause
    exact ⟨rfl, rejects, mem_brokerActs.mp told⟩
  · subst same
    cases cause

theorem greeting_reads (h : ClientStep encoder debug c b c') (here : c.runner = .greeting)
    (reads : clientReads b ≠ none) : (∃ a, b = .acked a) ∨
      ∃ f e, b = .refused (some f) e ∧ refusal debug (some f) = some e ∧ c'.runner = .failed e := by
  cases h with
  | acked => exact Or.inl ⟨_, rfl⟩
  | @refused f e _ cause =>
    cases f with
    | none => exact absurd rfl reads
    | some f => exact Or.inr ⟨f, e, rfl, cause, rfl⟩
  | ping busy | pingClosed busy | shutdownFrame busy | invoke busy | response busy | ignore busy =>
    rw [here] at busy
    cases busy
  | _ => exact absurd rfl reads

/-- A rejection that has arrived is what `establish` returns. -/
theorem rejection_returned (here : (sys.client k).runner = .greeting)
    (arrived : (sys.toClient k).head? = some (rejection e)) :
    (∃ sys', SystemStep env debug sys (.client k (.refused (some (rejection e)) e)) sys') ∧
      ∀ b sys', SystemStep env debug sys (.client k b) sys' → clientReads b ≠ none →
        b = .refused (some (rejection e)) e ∧ (sys'.client k).runner = .failed e := by
  constructor
  · refine ⟨_, .client (.refused here rfl) ?_⟩
    intro j f same
    cases same
    exact arrived
  · intro b sys' step reads
    cases step with
    | client step offered =>
      rcases greeting_reads step here reads with ⟨a, rfl⟩ | ⟨f, e', rfl, cause, failed⟩
      · cases arrived.symm.trans (offered k _ rfl)
      · cases arrived.symm.trans (offered k f rfl)
        cases cause
        exact ⟨rfl, by simpa [System.clientMoved] using failed⟩

theorem agreement (run : SystemRun env debug procs steps sys) (k : ConnId) :
    Agreement env debug procs steps sys k := by
  constructor
  · intro i a here
    exact acked_registered run here
  · intro i f e here
    exact refused_rejected run here
  · intro e told
    have mine := mem_brokerActs.mpr told
    obtain ⟨apart, once⟩ := rejected_alone (broker_run run) mine
    constructor
    · intro a mem
      obtain ⟨i, here⟩ := List.mem_iff_getElem?.mp mem
      obtain ⟨s, session, _⟩ := acked_registered run here
      rw [apart] at session
      cases session
    · intro f e' mem
      obtain ⟨i, here⟩ := List.mem_iff_getElem?.mp mem
      obtain ⟨same, _, told'⟩ := refused_rejected run here
      rw [same] at told'
      exact once e' (mem_brokerActs.mpr (List.mem_of_mem_take told'))
  · intro e here arrived
    exact rejection_returned here arrived

end

/-- What a connection is told first is what becomes of it. -/
theorem handshake_agreement :
    (∀ env acts w k, BrokerRun env acts w → Answer env acts w k ∧
      ((∀ h, .hello k h ∉ acts) → (w.out k).wire env.toVecNamed = [])) ∧
    ∀ env debug procs steps sys k, SystemRun env debug procs steps sys →
      Agreement env debug procs steps sys k := by
  constructor
  · intro env acts w k run
    exact ⟨answer run k, unheard_silent run⟩
  · intro env debug procs steps sys k run
    exact agreement run k

theorem ping_agreement : Agreement standardEnv quiet pingProcs joinedActs
    (System.pair pingProcs 0 pingWorld pingClient [] []) 0 ∧
    Answer standardEnv (brokerActs joinedActs) pingWorld 0 := by
  obtain ⟨broker, system⟩ := handshake_agreement
  exact ⟨system _ _ _ _ _ 0 ping_joins, (broker _ _ _ 0 (broker_run ping_joins)).1⟩

end TokimoGreeting

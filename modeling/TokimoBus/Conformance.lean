import TokimoBus.Greeting

/-!
The protocol between the broker and its clients. Past the handshake the main loop of either
side reads what the tasks of the other side have queued: from the first frame on, in order,
with nothing left out in between. So neither side ever meets a frame that it does not expect
where it is, and while no counter has wrapped, every Response is one that somebody waits for.
-/
namespace TokimoConformance
open TokimoFrame TokimoOutbound TokimoBroker TokimoSession TokimoClient TokimoChannel TokimoWriter
open TokimoSystem TokimoGreeting LabelledRuns Pipes
variable {env : Env} {debug : BusFrame → String} {procs : Processes} {s : System}
  {acts : List SystemAct} {k : ConnId} {f : BusFrame} {w w' : World} {a : Act} {trace : List Act}
  {encoder : Encoder} {hello : HelloRequest} {handlers : String → Option HandlerId}
  {c c' : Client} {b : ClientAct} {steps : List ClientAct}

def clientLoop : ClientAct → Option BusFrame
  | .acked _ | .refused _ _ => none
  | b => clientReads b

def brokerLoop (k : ConnId) : Act → Option BusFrame
  | .hello _ _ | .noHello _ _ => none
  | a => ofConn k (brokerReads a)

/-- What a client has read, by where it stands: nothing, a refusal, or the acknowledgement and
    then the frames of its loop. -/
inductive Heard : Runner → List BusFrame → List BusFrame → Prop where
  | waiting {r : Runner} (early : r.rank ≤ 1) : Heard r [] []
  | refused {e : BusError} (f : Option BusFrame) : Heard (.failed e) f.toList []
  | met {r : Runner} {a : HelloAck} {loop : List BusFrame} (past : 2 ≤ r.rank) :
      Heard r (.helloAck a :: loop) loop

theorem heard_step (step : ClientStep encoder debug c b c') {all loop : List BusFrame}
    (heard : Heard c.runner all loop) :
    Heard c'.runner (all ++ (clientReads b).toList) (loop ++ (clientLoop b).toList) := by
  have quiet : ∀ {r : Runner}, r = c.runner →
      Heard r (all ++ (none : Option BusFrame).toList) (loop ++ (none : Option BusFrame).toList) := by
    rintro r rfl
    simpa using heard
  have moved : ∀ {q r : Runner}, c.runner = q → 2 ≤ q.rank → 2 ≤ r.rank → (∀ e, q ≠ .failed e) →
      ∀ read : Option BusFrame, Heard r (all ++ read.toList) (loop ++ read.toList) := by
    intro q r here past later going read
    rw [here] at heard
    cases heard with
    | waiting early => omega
    | refused => exact absurd rfl (going _)
    | met => exact .met later
  have silent : ∀ {q : Runner}, c.runner = q → q.rank ≤ 1 → all = [] ∧ loop = [] := by
    intro q here early
    rw [here] at heard
    cases heard with
    | waiting => exact ⟨rfl, rfl⟩
    | refused => simp [Runner.rank] at early
    | met past => omega
  cases step with
  | greet here =>
    obtain ⟨rfl, rfl⟩ := silent here (by simp [Runner.rank])
    exact .waiting (by simp [Client.setRunner, Runner.rank])
  | greetBroken here | unread here =>
    obtain ⟨rfl, rfl⟩ := silent here (by simp [Runner.rank])
    exact .refused none
  | refused here =>
    obtain ⟨rfl, rfl⟩ := silent here (by simp [Runner.rank])
    exact .refused _
  | acked here =>
    obtain ⟨rfl, rfl⟩ := silent here (by simp [Runner.rank])
    exact .met (by simp [Client.setRunner, Runner.rank])
  | run here | hangup here | stop here | finish here =>
    exact moved here (by simp [Runner.rank]) (by simp [Client.setRunner, Runner.rank]) (by simp) none
  | ping here | pingClosed here | shutdownFrame here | invoke here | response here | ignore here =>
    refine moved here (by simp [Runner.rank]) ?_ (by simp) (some _)
    simp [Client.push, Client.setOut, Client.shutdown, Client.setTask, Client.wake,
      Client.setPending, here, Runner.rank]
  | _ => exact quiet rfl

theorem heard (run : ClientRun encoder debug hello handlers steps c) :
    Heard c.runner (steps.filterMap clientReads) (steps.filterMap clientLoop) := by
  induction run with
  | nil => exact .waiting (Nat.zero_le 1)
  | snoc _ step ih =>
    rw [filterMap_snoc, filterMap_snoc]
    exact heard_step step ih

theorem heard_loop (run : ClientRun encoder debug hello handlers steps c) :
    steps.filterMap clientLoop = [] ∨
      ∃ a, steps.filterMap clientReads = .helloAck a :: steps.filterMap clientLoop := by
  have known := heard run
  generalize c.runner = r at known
  generalize steps.filterMap clientReads = all at known ⊢
  generalize steps.filterMap clientLoop = loop at known ⊢
  cases known with
  | waiting | refused => exact Or.inl rfl
  | @met _ a => exact Or.inr ⟨a, rfl⟩

inductive Listened : Phase → List BusFrame → List BusFrame → Prop where
  | waiting {p : Phase} (early : p.rank ≤ 1) : Listened p [] []
  | unheard (f : Option BusFrame) (other : ∀ h, f ≠ some (.hello h)) :
      Listened .refused f.toList []
  | met {p : Phase} {h : HelloRequest} {loop : List BusFrame} (past : 2 ≤ p.rank) :
      Listened p (.hello h :: loop) loop

theorem listened_step (step : Step env w a w') {all loop : List BusFrame}
    (listened : Listened (w.phase k) all loop) :
    Listened (w'.phase k) (all ++ (ofConn k (brokerReads a)).toList)
      (loop ++ (brokerLoop k a).toList) := by
  have quiet : ∀ {p : Phase}, p = w.phase k →
      Listened p (all ++ (none : Option BusFrame).toList)
        (loop ++ (none : Option BusFrame).toList) := by
    rintro p rfl
    simpa using listened
  have moved : ∀ {j : ConnId} {p q : Phase}, w.phase j = q → 2 ≤ q.rank → q.rank ≤ p.rank →
      q ≠ .refused → Listened (Function.update w.phase j p k)
        (all ++ (none : Option BusFrame).toList) (loop ++ (none : Option BusFrame).toList) := by
    intro j p q here past up going
    by_cases eq : k = j
    · subst eq
      rw [here] at listened
      rw [Function.update_self]
      cases listened with
      | waiting early => omega
      | unheard => exact absurd rfl going
      | met => exact .met (Nat.le_trans past up)
    · exact quiet (Function.update_of_ne eq _ _)
  have reading : ∀ {j : ConnId} {ses : Session} {p : Phase} {g : BusFrame},
      w.phase j = .live ses .read → (j = k → 2 ≤ p.rank) → (j ≠ k → p = w.phase k) →
      Listened p (all ++ (ofConn k (some (j, g))).toList)
        (loop ++ (ofConn k (some (j, g))).toList) := by
    intro j ses p g here past same
    by_cases eq : j = k
    · subst eq
      rw [here] at listened
      rw [ofConn, if_pos rfl]
      cases listened with
      | waiting early => simp [Phase.rank, Stage.rank] at early
      | met => exact .met (past rfl)
    · rw [ofConn, if_neg eq]
      exact quiet (same eq)
  have first : ∀ {j : ConnId} {p : Phase} {g : Option BusFrame}, w.phase j = .handshake →
      (j = k → Listened p g.toList []) →
      Listened (Function.update w.phase j p k) (all ++ (ofConn k (g.map fun g => (j, g))).toList)
        (loop ++ (none : Option BusFrame).toList) := by
    intro j p g here own
    by_cases eq : j = k
    · subst eq
      rw [here] at listened
      rw [Function.update_self]
      cases listened with
      | waiting => cases g <;> simpa [ofConn] using own rfl
      | met past => simp [Phase.rank] at past
    · have silent : ofConn k (g.map fun g => (j, g)) = none := by
        cases g <;> simp [ofConn, eq]
      rw [silent]
      exact quiet (Function.update_of_ne (Ne.symm eq) _ _)
  cases step with
  | @accept j here =>
    by_cases eq : k = j
    · subst eq
      rw [here] at listened
      cases listened with
      | waiting => exact .waiting (by simp [World.setPhase, Phase.rank])
      | met past => simp [Phase.rank] at past
    · exact quiet (Function.update_of_ne eq _ _)
  | @noHello j f here other =>
    have one := @first j .refused f here fun _ => .unheard f other
    cases f <;> exact one
  | @hello j h here =>
    refine @first j (helloPhase h) (some (.hello h)) here fun _ => .met ?_
    unfold helloPhase
    split <;> simp [Phase.rank]
  | consume here =>
    refine moved here (by simp [Phase.rank]) ?_ (by simp)
    split <;> simp [Phase.rank]
  | reject here | rejectBroken here | clientId here | publish here | ack here | ackBroken here
  | rollback here | attach here | probe here | deliver here | undelivered here
  | fanned here | hangup here | detach here | forget here | removeIf here | abort here =>
    exact moved here (by simp [Phase.rank, Stage.rank]) (by simp [Phase.rank, Stage.rank]) (by simp)
  | generate here named =>
    subst named
    exact moved here (by simp [Phase.rank]) (by simp [Phase.rank, Stage.rank]) (by simp)
  | target here =>
    refine moved here (by simp [Phase.rank, Stage.rank]) ?_ (by simp)
    unfold targetStage
    split <;> simp [Phase.rank, Stage.rank]
  | check here =>
    refine moved here (by simp [Phase.rank, Stage.rank]) ?_ (by simp)
    split <;> simp [Phase.rank, Stage.rank]
  | fanout here =>
    refine reading here (fun eq => ?_) fun ne => Function.update_of_ne (Ne.symm ne) _ _
    subst eq
    simp [World.setPhase, Phase.rank, Stage.rank]
  | response here | subscribe here | unsubscribe here | spawn here | ignore here =>
    refine reading here (fun eq => ?_) fun _ => rfl
    subst eq
    simp [World.wake, World.setPending, World.withBroker, World.begin, World.setCallPhase, here,
      Phase.rank, Stage.rank]
  | _ => exact quiet rfl

theorem listened (run : BrokerRun env trace w) (k : ConnId) :
    Listened (w.phase k) (trace.filterMap fun a => ofConn k (brokerReads a))
      (trace.filterMap (brokerLoop k)) := by
  induction run with
  | nil => exact .waiting (Nat.zero_le 1)
  | snoc _ step ih =>
    rw [filterMap_snoc, filterMap_snoc]
    exact listened_step step ih

theorem listened_loop (run : BrokerRun env trace w) (k : ConnId) :
    trace.filterMap (brokerLoop k) = [] ∨ ∃ h,
      trace.filterMap (fun a => ofConn k (brokerReads a)) =
        .hello h :: trace.filterMap (brokerLoop k) := by
  have known := listened run k
  generalize w.phase k = p at known
  generalize trace.filterMap (fun a => ofConn k (brokerReads a)) = all at known ⊢
  generalize trace.filterMap (brokerLoop k) = loop at known ⊢
  cases known with
  | waiting | unheard => exact Or.inl rfl
  | @met _ h => exact Or.inr ⟨h, rfl⟩

theorem spoken (run : ClientRun encoder debug hello handlers steps c) :
    (directed (clientChannel steps) = [.hello hello] ∧ 1 ≤ c.runner.rank) ∨
      directed (clientChannel steps) = [] ∧ c.out.writer = .unspawned ∧
        (c.runner = .unconnected ∨ ∃ e, c.runner = .failed e) := by
  induction run with
  | nil => exact Or.inr ⟨rfl, rfl, Or.inl rfl⟩
  | @snoc steps c c' b before step ih =>
    have same : ∀ {b : ClientAct}, (clientChannelActs b).filterMap ChannelAct.writes = [] →
        directed (clientChannel (steps ++ [b])) = directed (clientChannel steps) := by
      intro b quiet
      simp [clientChannel, directed, quiet]
    have kept : ∀ {b : ClientAct} {c' : Client},
        (clientChannelActs b).filterMap ChannelAct.writes = [] → c'.runner = c.runner →
        c'.out.writer = c.out.writer →
        (directed (clientChannel (steps ++ [b])) = [.hello hello] ∧ 1 ≤ c'.runner.rank) ∨
          directed (clientChannel (steps ++ [b])) = [] ∧ c'.out.writer = .unspawned ∧
            (c'.runner = .unconnected ∨ ∃ e, c'.runner = .failed e) := by
      intro b c' quiet runner writer
      rw [same quiet, runner, writer]
      exact ih
    have going : ∀ {b : ClientAct} {c' : Client} {q : Runner},
        (clientChannelActs b).filterMap ChannelAct.writes = [] → c.runner = q → 1 ≤ q.rank →
        (∀ e, q ≠ .failed e) → 1 ≤ c'.runner.rank →
        (directed (clientChannel (steps ++ [b])) = [.hello hello] ∧ 1 ≤ c'.runner.rank) ∨
          directed (clientChannel (steps ++ [b])) = [] ∧ c'.out.writer = .unspawned ∧
            (c'.runner = .unconnected ∨ ∃ e, c'.runner = .failed e) := by
      intro b c' q quiet here past unfailed later
      rw [same quiet]
      rcases ih with ⟨told, _⟩ | ⟨_, _, at_start | ⟨e, failed⟩⟩
      · exact Or.inl ⟨told, later⟩
      · rw [← here, at_start] at past
        simp [Runner.rank] at past
      · exact absurd (here.symm.trans failed) (unfailed e)
    cases step with
    | greet here =>
      refine Or.inl ⟨?_, by simp [Client.setRunner, Runner.rank]⟩
      rcases ih with ⟨_, past⟩ | ⟨silent, _⟩
      · rw [here] at past
        simp [Runner.rank] at past
      · have own := (identity_kept before).1
        simp only [clientChannel, directed, List.flatMap_append, List.filterMap_append] at silent ⊢
        rw [silent, own]
        rfl
    | greetBroken here =>
      rcases ih with ⟨_, past⟩ | ⟨silent, fresh, _⟩
      · rw [here] at past
        simp [Runner.rank] at past
      · exact Or.inr ⟨(same rfl).trans silent, fresh, Or.inr ⟨_, rfl⟩⟩
    | acked here | refused here | unread here | run here | hangup here | stop here | finish here =>
      exact going rfl here (by simp [Runner.rank]) (by simp)
        (by simp [Client.setRunner, Runner.rank])
    | @writer x o one =>
      rcases ih with ⟨told, past⟩ | ⟨_, fresh, _⟩
      · exact Or.inl ⟨(same rfl).trans told, past⟩
      · exact absurd fresh (writer_spawned one)
    | _ => exact kept rfl rfl rfl

theorem hello_rest (run : ClientRun encoder debug hello handlers steps c) {g : HelloRequest}
    {rest : List BusFrame} (stream : steps.filterMap clientWrites = .hello g :: rest) :
    rest <+: steps.filterMap ClientAct.sends := by
  have channel := client_channel_run run
  obtain ⟨parts, early⟩ := streamed_parts channel
  rw [client_streamed, stream] at parts
  rcases spoken run with ⟨told, _⟩ | ⟨silent, fresh, _⟩
  · rw [told] at parts
    cases parts
    rw [← client_pushed]
    exact (ordered channel).front
  · rw [silent, early fresh] at parts
    cases parts

theorem hello_first (run : ClientRun encoder debug hello handlers steps c) {g : BusFrame}
    {rest : List BusFrame} (stream : steps.filterMap clientWrites = g :: rest) :
    g = .hello hello := by
  obtain ⟨parts, early⟩ := streamed_parts (client_channel_run run)
  rw [client_streamed, stream] at parts
  rcases spoken run with ⟨told, _⟩ | ⟨silent, fresh, _⟩
  · rw [told] at parts
    cases parts
    rfl
  · rw [silent, early fresh] at parts
    cases parts

theorem ack_rest (run : BrokerRun env trace w) {g : HelloAck} {rest : List BusFrame}
    (stream : (brokerChannel k trace).filterMap ChannelAct.streamed = .helloAck g :: rest) :
    rest <+: pushed (brokerChannel k trace) := by
  have channel := broker_channel_run run k
  have front := (ordered channel).front
  rw [(streamed_parts channel).1, ← directed_shakes, shaken] at stream
  have known := said run k
  have asleep : .spawn ∉ (trace.filter (speaks k)).flatMap (channelActs k) →
      wrote (brokerChannel k trace) = [] := by
    intro none
    refine (silent channel fun mem => none ?_).unwritten
    rw [← shaken]
    exact List.mem_filter.mpr ⟨mem, rfl⟩
  generalize trace.filter (speaks k) = spoken at known stream asleep
  generalize w.phase k = p at known
  cases known with
  | rejected =>
    rw [told_reject] at stream
    cases stream
  | acked =>
    rw [told_ack] at stream
    cases stream
    exact front
  | unrejected =>
    rw [cut_reject] at stream asleep
    rw [asleep (by simp)] at stream
    cases stream
  | unacked =>
    rw [cut_ack] at stream asleep
    rw [asleep (by simp)] at stream
    cases stream
  | _ =>
    rw [asleep (by simp)] at stream
    cases stream

abbrev queuedFor (k : ConnId) (trace : List Act) : List BusFrame :=
  trace.filterMap fun a => ofConn k (queues a)

theorem client_loop_order (run : SystemRun env debug procs acts s) (k : ConnId) :
    (clientActs k acts).filterMap clientLoop <+: queuedFor k (brokerActs acts) := by
  have pipe := written_eq (downward env debug procs k) run
  change acts.filterMap (fun x => ofConn k (x.brokerIO brokerWrites)) =
    acts.filterMap (fun x => ofConn k (x.clientIO clientReads)) ++ s.toClient k at pipe
  rw [← brokerActs_filterMap, ← broker_streamed, ← clientActs_filterMap] at pipe
  rcases heard_loop (client_run run k) with none | ⟨a, reads⟩
  · rw [none]
    exact List.nil_prefix
  · rw [reads, List.cons_append] at pipe
    have front := ack_rest (broker_run run) pipe
    rw [broker_pushed] at front
    exact List.IsPrefix.trans (List.prefix_append _ _) front

theorem broker_loop_order (run : SystemRun env debug procs acts s) (k : ConnId) :
    (brokerActs acts).filterMap (brokerLoop k) <+:
      (clientActs k acts).filterMap ClientAct.sends := by
  have pipe := written_eq (upward env debug procs k) run
  change acts.filterMap (fun x => ofConn k (x.clientIO clientWrites)) =
    acts.filterMap (fun x => ofConn k (x.brokerIO brokerReads)) ++ s.toBroker k at pipe
  rw [← clientActs_filterMap, ← brokerActs_filterMap] at pipe
  rcases listened_loop (broker_run run) k with none | ⟨h, reads⟩
  · rw [none]
    exact List.nil_prefix
  · rw [reads, List.cons_append] at pipe
    exact List.IsPrefix.trans (List.prefix_append _ _) (hello_rest (client_run run k) pipe)

/-- What the main loops have read is what the other side has queued, up to some point. -/
theorem loops_in_order (run : SystemRun env debug procs acts s) (k : ConnId) :
    (clientActs k acts).filterMap clientLoop <+: queuedFor k (brokerActs acts) ∧
      (brokerActs acts).filterMap (brokerLoop k) <+:
        (clientActs k acts).filterMap ClientAct.sends :=
  ⟨client_loop_order run k, broker_loop_order run k⟩

theorem client_loop_queued (run : SystemRun env debug procs acts s) (mem : .client k b ∈ acts)
    (read : clientLoop b = some f) : ∃ a, .broker a ∈ acts ∧ queues a = some (k, f) := by
  have inside : f ∈ (clientActs k acts).filterMap clientLoop :=
    List.mem_filterMap.mpr ⟨b, mem_clientActs.mpr mem, read⟩
  obtain ⟨a, there, queued⟩ :=
    List.mem_filterMap.mp ((client_loop_order run k).subset inside)
  exact ⟨a, mem_brokerActs.mp there, ofConn_eq.mp queued⟩

theorem broker_loop_queued (run : SystemRun env debug procs acts s) (mem : .broker a ∈ acts)
    (read : brokerLoop k a = some f) : ∃ b, .client k b ∈ acts ∧ b.sends = some f := by
  have inside : f ∈ (brokerActs acts).filterMap (brokerLoop k) :=
    List.mem_filterMap.mpr ⟨a, mem_brokerActs.mpr mem, read⟩
  obtain ⟨b, there, queued⟩ :=
    List.mem_filterMap.mp ((broker_loop_order run k).subset inside)
  exact ⟨b, mem_clientActs.mp there, queued⟩

/-- What the two ends of connection `k` read, as the protocol has it. -/
structure Followed (procs : Processes) (acts : List SystemAct) (k : ConnId) : Prop where
  greeted : ∀ f, .broker (.noHello k (some f)) ∉ acts
  hello : ∀ h, .broker (.hello k h) ∈ acts → h = procs.hello k
  known : ∀ f, .broker (.ignore k f) ∉ acts
  subscribed : ∀ p, .broker (.unsubscribe k p) ∉ acts
  answered : ∀ f e, .client k (.refused (some f) e) ∈ acts →
    f = rejection e ∧ Rejects (brokerActs acts) k e
  unpinged : .client k .ping ∉ acts ∧ .client k .pingClosed ∉ acts
  events : ∀ f, .client k (.ignore f) ∈ acts →
    ∃ ev j, f = .event ev ∧ .broker (.deliver j k ev) ∈ acts

theorem unpinged (run : SystemRun env debug procs acts s) (mem : .client k b ∈ acts)
    (read : clientLoop b = some .ping) : False := by
  obtain ⟨a, _, queued⟩ := client_loop_queued run mem read
  cases a <;> cases queued

/-- The first frame that the broker finds on a connection is a Hello. -/
theorem greeted_first (run : SystemRun env debug procs acts s)
    (mem : .broker (.noHello k (some f)) ∈ acts) : False := by
  obtain ⟨i, here⟩ := List.mem_iff_getElem?.mp mem
  obtain ⟨v, v', before, step, _⟩ := run_at run here
  cases step with
  | broker step offered =>
    have pipe := written_eq (upward env debug procs k) before
    change (acts.take i).filterMap (fun x => ofConn k (x.clientIO clientWrites)) =
      (acts.take i).filterMap (fun x => ofConn k (x.brokerIO brokerReads)) ++ v.toBroker k at pipe
    rw [← clientActs_filterMap, ← brokerActs_filterMap] at pipe
    have next := offered k f rfl
    cases step with
    | noHello phase other =>
      have known := listened (broker_run before) k
      rw [phase] at known
      generalize (brokerActs (acts.take i)).filterMap (fun a => ofConn k (brokerReads a)) = all
        at known pipe
      generalize (brokerActs (acts.take i)).filterMap (brokerLoop k) = loop at known
      cases known with
      | waiting =>
        cases content : v.toBroker k with
        | nil => simp [content] at next
        | cons g rest =>
          rw [content, List.nil_append] at pipe
          simp only [content, List.head?_cons, Option.some.injEq] at next
          subst next
          exact other _ (congrArg some (hello_first (client_run before k) pipe))
      | met past => simp [Phase.rank] at past

/-- Neither side meets a frame that it does not expect where it is. -/
theorem protocol_followed (run : SystemRun env debug procs acts s) (k : ConnId) :
    Followed procs acts k where
  greeted := fun _ mem => greeted_first run mem
  hello := fun h mem => hello_read run mem
  known := by
    intro f mem
    obtain ⟨b, there, sent⟩ := broker_loop_queued run mem (ofConn_eq.mpr rfl)
    obtain ⟨i, here⟩ := List.mem_iff_getElem?.mp mem
    obtain ⟨v, v', _, step, _⟩ := run_at run here
    have other : TokimoSession.Ignored f := by
      cases step with
      | broker step =>
        cases step with
        | ignore _ other => exact other
    cases b with
    | ping => exact unpinged run there rfl
    | reply | send | publish | subscribe =>
      cases sent
      exact other
    | _ => cases sent
  subscribed := by
    intro p mem
    obtain ⟨b, _, sent⟩ := broker_loop_queued run mem (ofConn_eq.mpr rfl)
    cases b <;> cases sent
  answered := by
    intro f e mem
    obtain ⟨i, here⟩ := List.mem_iff_getElem?.mp mem
    obtain ⟨same, rejects, _⟩ := refused_rejected run here
    have parts : brokerActs acts = brokerActs (acts.take i) ++ brokerActs (acts.drop i) := by
      rw [brokerActs, brokerActs, brokerActs, ← List.flatMap_append, List.take_append_drop]
    rw [parts]
    exact ⟨same, rejects_append rejects _⟩
  unpinged := ⟨fun mem => unpinged run mem rfl, fun mem => unpinged run mem rfl⟩
  events := by
    intro f mem
    obtain ⟨a, there, queued⟩ := client_loop_queued run mem rfl
    obtain ⟨i, here⟩ := List.mem_iff_getElem?.mp mem
    obtain ⟨v, v', _, step, _⟩ := run_at run here
    have other : TokimoClient.Ignored f := by
      cases step with
      | client step =>
        cases step with
        | ignore _ other => exact other
    cases a with
    | deliver j k' ev =>
      cases queued
      exact ⟨ev, j, rfl, there⟩
    | send | answer | shutdownSend =>
      cases queued
      exact absurd other id
    | _ => cases queued

theorem ping_in_order : (clientActs 0 pingActs).filterMap clientLoop =
      [.invoke passedInvoke, .response ⟨1, .ok [7]⟩] ∧
    (clientActs 0 pingActs).filterMap clientLoop <+: queuedFor 0 (brokerActs pingActs) := by
  obtain ⟨w, c, run, _⟩ := ping_run
  exact ⟨by decide, (loops_in_order run 0).1⟩

theorem ping_followed : Followed pingProcs pingActs 0 := by
  obtain ⟨w, c, run, _⟩ := ping_run
  exact protocol_followed run 0

end TokimoConformance

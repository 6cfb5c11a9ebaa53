import TokimoBus.Accounts
import TokimoBus.Liveness
import TokimoBus.Greeting

/-!
An invoke on a connection that works is answered. Every stretch of its way is a queue that somebody
empties from the front: the two channels with their writers, the two streams with their readers; in
between, the task of the broker is over after a few steps. If each of them is scheduled
again and again, the Response is there at some point, whatever the others do.
-/
namespace TokimoAnswers
open TokimoFrame TokimoOutbound TokimoBroker TokimoSession TokimoClient TokimoSystem
open TokimoChannel TokimoWriter TokimoConfinement TokimoEnabled TokimoLiveness TokimoAccounts
open LabelledRuns Pipes Lines Fairness

section channel
variable {encoder : Encoder} {o o' : Outbound} {x : ChannelAct} {xs : List ChannelAct} {f : BusFrame}

def Awake (o : Outbound) : Prop := o.writer ≠ .unspawned

def writerLag (o : Outbound) : Nat := if o.writer = .idle then 1 else 0

theorem awake_step (step : ChannelStep encoder o x o') (awake : Awake o) : Awake o' := by
  cases step with
  | spawn here => exact absurd here awake
  | writer one => cases one <;> simp [Awake, Outbound.stop, Outbound.tear]
  | stop => simp [Awake, Outbound.stop]
  | push | direct | abort | tear => exact awake

theorem awake_run (run : Run (ChannelStep encoder) o xs o') (awake : Awake o) : Awake o' := by
  induction run with
  | nil => exact awake
  | snoc _ step ih => exact awake_step step ih

theorem works_step (step : ChannelStep encoder o x o') (awake : Awake o) (silent : x.wrote = none) :
    o'.writer = .ended ∨ (∃ more, held o' = held o ++ more) ∧ writerLag o' ≤ writerLag o ∧
      ((∃ y, x = .writer y) → writerLag o' < writerLag o) := by
  cases step with
  | @push f alive =>
    have longer : held (o.push f) = held o ++ [f] := by
      unfold held
      simp only [Outbound.push]
      split <;> rfl
    exact Or.inr ⟨⟨[f], longer⟩, Nat.le_refl _, by simp⟩
  | direct here | spawn here => exact absurd here awake
  | abort | tear => exact Or.inr ⟨⟨[], (List.append_nil _).symm⟩, Nat.le_refl _, by simp⟩
  | stop => exact Or.inl rfl
  | writer one =>
    cases one with
    | recv idle next =>
      refine Or.inr ⟨⟨[], ?_⟩, ?_⟩
      · simp [held, idle, next]
      · simp [writerLag, idle]
    | wrote => cases silent
    | rejected | broke | cancelledIdle | cancelledBusy => exact Or.inl rfl

theorem works_run (run : Run (ChannelStep encoder) o xs o') (awake : Awake o)
    (silent : xs.filterMap ChannelAct.wrote = []) :
    o'.writer = .ended ∨ (∃ more, held o' = held o ++ more) ∧ writerLag o' ≤ writerLag o ∧
      ((∃ y, .writer y ∈ xs) → writerLag o' < writerLag o) := by
  induction run with
  | nil => exact Or.inr ⟨⟨[], (List.append_nil _).symm⟩, Nat.le_refl _, by simp⟩
  | @snoc xs v v' x before step ih =>
    rw [filterMap_snoc, List.append_eq_nil_iff, Option.toList_eq_nil_iff] at silent
    rcases ih silent.1 with ended | ⟨⟨more, grown⟩, low, own⟩
    · exact Or.inl (not_not.mp (closed_run (run_single step) (not_not.mpr ended)))
    · rcases works_step step (awake_run before awake) silent.2 with ended | ⟨⟨more', grown'⟩, low', own'⟩
      · exact Or.inl ended
      · refine Or.inr ⟨⟨more ++ more', by rw [grown', grown, List.append_assoc]⟩,
          Nat.le_trans low' low, fun some => ?_⟩
        obtain ⟨y, mem⟩ := some
        rcases List.mem_append.mp mem with early | late
        · exact Nat.lt_of_le_of_lt low' (own ⟨y, early⟩)
        · have same := List.mem_singleton.mp late
          exact Nat.lt_of_lt_of_le (own' ⟨y, same.symm⟩) low

theorem wrote_head (run : Run (ChannelStep encoder) o [.writer (.wrote f)] o') :
    held o = f :: held o' := by
  have alone : Run (ChannelStep encoder) o ([] ++ [.writer (.wrote f)]) o' := run
  obtain ⟨v, start, last⟩ := run_snoc_inv alone
  rw [run_nil_inv start] at last
  cases last with
  | writer one =>
    cases one with
    | wrote busy => simp [held, busy, Outbound.direct]

theorem writer_ready (awake : Awake o) (alive : ¬ o.writer = .ended) (some : held o ≠ []) :
    ∃ y o', WriterStep encoder o y o' := by
  cases here : o.writer with
  | unspawned => exact absurd here awake
  | ended => exact absurd here alive
  | idle =>
    cases queue : o.queue with
    | nil => simp [held, here, queue] at some
    | cons f rest => exact ⟨_, _, WriterStep.recv here queue⟩
  | writing f =>
    cases bytes : writeFrame encoder f with
    | ok bytes => exact ⟨_, _, WriterStep.wrote here bytes⟩
    | error e => exact ⟨_, _, WriterStep.rejected here bytes⟩

end channel

/-- A channel that is part of a larger system is emptied by its writer. -/
theorem writer_serves {σ α : Type} {step : σ → α → σ → Prop} {start : σ} {encoder : Encoder}
    {out : σ → Outbound} {parts : α → List ChannelAct} {own : α → Prop} {pops : α → Option BusFrame}
    (moves : ∀ {s x t}, Reachable step start s → step s x t →
      Run (ChannelStep encoder) (out s) (parts x) (out t))
    (silent : ∀ {x}, pops x = none → (parts x).filterMap ChannelAct.wrote = [])
    (writes : ∀ {x f}, pops x = some f → parts x = [.writer (.wrote f)])
    (mine : ∀ {x}, own x → ∃ y, .writer y ∈ parts x)
    (enables : ∀ {s y o}, WriterStep encoder (out s) y o → Enabled step own s) :
    Serves step start own (fun s => Awake (out s)) (fun s => (out s).writer = .ended)
      (fun s => held (out s)) pops (fun s => writerLag (out s)) where
  keeps := fun _ _ _ reach one awake => awake_run (moves reach one) awake
  stays := fun _ _ _ reach one ended =>
    not_not.mp (closed_run (moves reach one) (not_not.mpr ended))
  ready := by
    intro s _ awake alive some
    obtain ⟨y, o, one⟩ := @writer_ready encoder _ awake alive some
    exact enables one
  works := by
    intro s x t reach awake one none
    rcases works_run (moves reach one) awake (silent none) with ended | ⟨grown, low, sinks⟩
    · exact Or.inl ended
    · exact Or.inr ⟨grown, low, fun own => sinks (mine own)⟩
  takes := by
    intro s x t f reach awake one some
    have run := moves reach one
    rw [writes some] at run
    exact Or.inr ⟨held (out t), [], wrote_head run, (List.append_nil _).symm⟩

variable {env : Env} {debug : BusFrame → String} {procs : Processes} {s s' : System}
  {x : SystemAct} {k : ConnId} {f : BusFrame} {w w' : World} {a : Act} {c : CallId} {i : InvokeId}

def clientWrote : ClientAct → Option BusFrame
  | .writer (.wrote f) => some f
  | _ => none

def brokerWrote : Act → Option (ConnId × BusFrame)
  | .writer k (.wrote f) => some (k, f)
  | _ => none

theorem client_channel (reach : Reachable (SystemStep env debug) (System.start procs) s)
    (step : SystemStep env debug s x s') (k : ConnId) : Run (ChannelStep env.toVecNamed)
      (s.client k).out ((x.ofClient k).flatMap clientChannelActs) (s'.client k).out := by
  obtain ⟨acts, run⟩ := reach
  have known := client_run run k
  cases step with
  | broker => exact Run.nil
  | @client j b c one =>
    by_cases eq : j = k
    · subst eq
      simpa [SystemAct.ofClient, System.clientMoved] using client_step_channel ⟨_, known⟩ one
    · simp only [SystemAct.ofClient, if_neg eq, System.clientMoved,
        Function.update_of_ne (Ne.symm eq)]
      exact Run.nil

theorem broker_channel (reach : Reachable (SystemStep env debug) (System.start procs) s)
    (step : SystemStep env debug s x s') (k : ConnId) : Run (ChannelStep env.toVecNamed)
      (s.world.out k) (x.ofBroker.flatMap (channelActs k)) (s'.world.out k) := by
  obtain ⟨acts, run⟩ := reach
  have known := broker_run run
  cases step with
  | @broker a w one =>
    simpa [SystemAct.ofBroker, System.brokerMoved] using step_channel ⟨_, known⟩ one k
  | client => exact Run.nil

theorem client_parts_silent (none : ofConn k (x.clientIO clientWrote) = none) :
    ((x.ofClient k).flatMap clientChannelActs).filterMap ChannelAct.wrote = [] := by
  cases x with
  | broker => rfl
  | client j b =>
    by_cases eq : j = k
    · subst eq
      simp only [SystemAct.clientIO, ofConn_on, ↓reduceIte] at none
      simp only [SystemAct.ofClient, ↓reduceIte, List.flatMap_singleton]
      cases b with
      | writer y => cases y <;> first | rfl | cases none
      | _ => rfl
    · simp [SystemAct.ofClient, eq]

theorem client_parts_writes (some : ofConn k (x.clientIO clientWrote) = some f) :
    (x.ofClient k).flatMap clientChannelActs = [.writer (.wrote f)] := by
  have frame := ofConn_eq.mp some
  cases x with
  | broker => cases frame
  | client j b =>
    obtain ⟨rfl, wrote⟩ := on_eq.mp frame
    cases b with
    | writer y =>
      cases y with
      | wrote g =>
        cases wrote
        simp [SystemAct.ofClient, clientChannelActs]
      | _ => cases wrote
    | _ => cases wrote

theorem broker_parts_silent (none : ofConn k (x.brokerIO brokerWrote) = none) :
    (x.ofBroker.flatMap (channelActs k)).filterMap ChannelAct.wrote = [] := by
  cases x with
  | client => rfl
  | broker a =>
    simp only [SystemAct.ofBroker, List.flatMap_singleton]
    cases a with
    | writer j y =>
      by_cases eq : j = k
      · subst eq
        cases y with
        | wrote => simp [SystemAct.brokerIO, brokerWrote, ofConn] at none
        | _ => simp [channelActs, ChannelAct.wrote]
      · simp [channelActs, eq]
    | reject j | rejectBroken j | ack j | ackBroken j | rollback j | abort j =>
      by_cases eq : j = k <;> simp [channelActs, eq, ChannelAct.wrote]
    | deliver _ j | send _ j | answer _ j | shutdownSend j =>
      by_cases eq : j = k <;> simp [channelActs, queues, eq, ChannelAct.wrote]
    | _ => rfl

theorem broker_parts_writes (some : ofConn k (x.brokerIO brokerWrote) = some f) :
    x.ofBroker.flatMap (channelActs k) = [.writer (.wrote f)] := by
  have frame := ofConn_eq.mp some
  cases x with
  | client => cases frame
  | broker a =>
    cases a with
    | writer j y =>
      cases y with
      | wrote g =>
        cases frame
        simp [SystemAct.ofBroker, channelActs]
      | _ => cases frame
    | _ => cases frame

theorem client_wrote (some : ofConn k (x.clientIO clientWrote) = some f) :
    (upLine env debug procs k).writes x = .some f := by
  have frame := ofConn_eq.mp some
  cases x with
  | broker => cases frame
  | client j b =>
    obtain ⟨rfl, wrote⟩ := on_eq.mp frame
    refine ofConn_eq.mpr (on_eq.mpr ⟨rfl, ?_⟩)
    cases b with
    | writer y => cases y <;> exact wrote
    | _ => cases wrote

theorem broker_wrote (some : ofConn k (x.brokerIO brokerWrote) = some f) :
    (downLine env debug procs k).writes x = .some f := by
  have frame := ofConn_eq.mp some
  cases x with
  | client => cases frame
  | broker a =>
    refine ofConn_eq.mpr ?_
    cases a with
    | writer j y => cases y <;> exact frame
    | _ => cases frame

def ClientWriter (k : ConnId) (x : SystemAct) : Prop := ∃ y, x = .client k (.writer y)

def SessionWriter (k : ConnId) (x : SystemAct) : Prop := ∃ y, x = .broker (.writer k y)

theorem client_writer (k : ConnId) : Serves (SystemStep env debug) (System.start procs)
    (ClientWriter k) (fun s => Awake (s.client k).out) (fun s => (s.client k).out.writer = .ended)
    (fun s => held (s.client k).out) (fun x => ofConn k (x.clientIO clientWrote))
    (fun s => writerLag (s.client k).out) := by
  refine writer_serves (fun reach step => client_channel reach step k) client_parts_silent
    client_parts_writes ?_ ?_
  · intro x own
    obtain ⟨y, rfl⟩ := own
    exact ⟨y, by simp [SystemAct.ofClient, clientChannelActs]⟩
  · intro s y o one
    refine ⟨.client k (.writer y), _, ⟨y, rfl⟩, SystemStep.client (ClientStep.writer one) ?_⟩
    intro j f read
    cases read

theorem session_writer (k : ConnId) : Serves (SystemStep env debug) (System.start procs)
    (SessionWriter k) (fun s => Awake (s.world.out k)) (fun s => (s.world.out k).writer = .ended)
    (fun s => held (s.world.out k)) (fun x => ofConn k (x.brokerIO brokerWrote))
    (fun s => writerLag (s.world.out k)) := by
  refine writer_serves (fun reach step => broker_channel reach step k) broker_parts_silent
    broker_parts_writes ?_ ?_
  · intro x own
    obtain ⟨y, rfl⟩ := own
    exact ⟨y, by simp [SystemAct.ofBroker, channelActs]⟩
  · intro s y o one
    refine ⟨.broker (.writer k y), _, ⟨y, rfl⟩, SystemStep.broker (Step.writer one) ?_⟩
    intro j f read
    cases read

def running : Phase → Bool
  | .live _ .rollback => false
  | p => decide (7 ≤ p.rank)

def sessionLag : Phase → Nat
  | .live _ .attach => 2
  | .live _ .probe => 1
  | .live _ (.fan _ rest) => 2 * rest.length + 1
  | .live _ (.deliver _ _ rest) => 2 * rest.length + 2
  | _ => 0

/-- The steps of `serve` from the acknowledgement to the end of its main loop. -/
def loopOf : Act → Option ConnId
  | .attach k | .probe k _ => some k
  | a => readsFor a

theorem running_step (step : Step env w a w') (now : running (w.phase k) = true) :
    running (w'.phase k) = true := by
  have moved : ∀ {j : ConnId} {p q : Phase}, w.phase j = q →
      (running q = true → running p = true) → running (Function.update w.phase j p k) = true := by
    intro j p q here same
    exact moved_on (P := fun p => running p = true) here same now
  cases step with
  | target here =>
    refine moved here ?_
    unfold targetStage
    split <;> simp [running, Phase.rank, Stage.rank]
  | check here =>
    refine moved here ?_
    split <;> simp [running, Phase.rank, Stage.rank]
  | hello here | consume here | accept here | noHello here | reject here | rejectBroken here
  | clientId here | generate here | publish here | ack here | ackBroken here | rollback here
  | attach here | probe here | fanout here | deliver here | undelivered here | fanned here
  | hangup here | detach here | forget here | removeIf here | abort here =>
    exact moved here (by simp [running, Phase.rank, Stage.rank])
  | _ => exact now

theorem loop_step (step : Step env w a w') (now : running (w.phase k) = true)
    (unread : ofConn k (brokerReads a) = none) : 10 ≤ (w'.phase k).rank ∨
      sessionLag (w'.phase k) ≤ sessionLag (w.phase k) ∧
      (loopOf a = some k → sessionLag (w'.phase k) < sessionLag (w.phase k)) := by
  have moved : ∀ {j : ConnId} {p q : Phase}, w.phase j = q → (running q = true → 10 ≤ p.rank ∨
      sessionLag p < sessionLag q) → (loopOf a = some k → j = k) →
      10 ≤ (Function.update w.phase j p k).rank ∨
        sessionLag (Function.update w.phase j p k) ≤ sessionLag (w.phase k) ∧
        (loopOf a = some k → sessionLag (Function.update w.phase j p k) <
          sessionLag (w.phase k)) := by
    intro j p q here less own
    by_cases eq : k = j
    · subst eq
      rw [Function.update_self, here]
      rw [here] at now
      exact (less now).imp_right fun low => ⟨Nat.le_of_lt low, fun _ => low⟩
    · rw [Function.update_of_ne eq]
      exact Or.inr ⟨Nat.le_refl _, fun mine => absurd (own mine).symm eq⟩
  have elsewhere : ∀ {j : ConnId} {g : BusFrame}, brokerReads a = some (j, g) → k ≠ j := by
    intro j g read eq
    rw [read, eq] at unread
    simp [ofConn] at unread
  have reads : ∀ {j : ConnId} {g : BusFrame}, brokerReads a = some (j, g) → loopOf a = some j →
      10 ≤ (w.phase k).rank ∨ sessionLag (w.phase k) ≤ sessionLag (w.phase k) ∧
        (loopOf a = some k → sessionLag (w.phase k) < sessionLag (w.phase k)) := by
    intro j g read own
    refine Or.inr ⟨Nat.le_refl _, fun mine => ?_⟩
    rw [own, Option.some.injEq] at mine
    exact absurd mine.symm (elsewhere read)
  cases step with
  | response here | subscribe here | unsubscribe here | spawn here | ignore here =>
    exact reads rfl rfl
  | fanout here =>
    have apart := elsewhere rfl
    simp only [World.setPhase, Function.update_of_ne apart]
    exact reads rfl rfl
  | attach here | probe here | deliver here | undelivered here | fanned here =>
    exact moved here (fun _ => Or.inr (by simp [sessionLag])) (by simp [loopOf, readsFor])
  | target here =>
    refine moved here (fun _ => Or.inr ?_) (by simp [loopOf, readsFor])
    unfold targetStage
    split <;> simp only [sessionLag, List.length_cons] <;> omega
  | hangup here | detach here | forget here | removeIf here | abort here =>
    exact moved here (fun _ => Or.inl (by simp [Phase.rank, Stage.rank])) (by simp [loopOf, readsFor])
  | check here =>
    refine moved here (fun _ => Or.inl ?_) (by simp [loopOf, readsFor])
    split <;> simp [Phase.rank, Stage.rank]
  | hello here | consume here | accept here | noHello here | reject here | rejectBroken here
  | clientId here | generate here | publish here | ack here | ackBroken here | rollback here =>
    exact moved here (by simp [running, Phase.rank, Stage.rank]) (by simp [loopOf, readsFor])
  | _ => exact Or.inr ⟨Nat.le_refl _, by simp [loopOf, readsFor]⟩

def SessionLoop (k : ConnId) (x : SystemAct) : Prop := ∃ a, x = .broker a ∧ loopOf a = some k

def ClientReader (k : ConnId) (x : SystemAct) : Prop := ∃ b, x = .client k b ∧ clientReads b ≠ none

theorem session_ready (reach : Reachable (SystemStep env debug) (System.start procs) s)
    (now : running (s.world.phase k) = true) (loops : ¬ 10 ≤ (s.world.phase k).rank)
    (some : s.toBroker k ≠ []) : Enabled (SystemStep env debug) (SessionLoop k) s := by
  obtain ⟨acts, run⟩ := reach
  obtain ⟨c, new⟩ := fresh_call (broker_run run)
  have silent : ∀ {a w}, Step env s.world a w → brokerReads a = none → loopOf a = .some k →
      Enabled (SystemStep env debug) (SessionLoop k) s := by
    intro a w step unread own
    refine ⟨.broker a, _, ⟨a, rfl, own⟩, SystemStep.broker step ?_⟩
    intro j f read
    rw [unread] at read
    cases read
  have reads : ∀ {a w}, Step env s.world a w → readsFor a = .some k → loopOf a = .some k := by
    intro a w step own
    cases a <;> first | exact own | cases own
  by_cases nine : (s.world.phase k).rank = 9
  · rcases @loop_goes_on env _ k nine with ⟨ses, here⟩ | ⟨a, w, step, unread, own⟩
    · cases content : s.toBroker k with
      | nil => exact absurd content some
      | cons f rest =>
        obtain ⟨a, w, step, read, own⟩ := @loop_takes env _ c k ses here new f
        refine ⟨.broker a, _, ⟨a, rfl, reads step own⟩, SystemStep.broker step ?_⟩
        intro j g frame
        rw [read] at frame
        cases frame
        rw [content]
        rfl
    · exact silent step unread (reads step own)
  · cases here : s.world.phase k with
    | live ses stage =>
      rw [here] at now loops nine
      cases stage with
      | attach => exact silent (Step.attach here) rfl rfl
      | probe => exact silent (Step.probe here new) rfl rfl
      | rollback => cases now
      | _ => simp [running, Phase.rank, Stage.rank] at now loops nine
    | _ =>
      rw [here] at now
      simp [running, Phase.rank] at now

theorem session_loop (k : ConnId) : Serves (SystemStep env debug) (System.start procs)
    (SessionLoop k) (fun s => running (s.world.phase k) = true)
    (fun s => 10 ≤ (s.world.phase k).rank) (fun s => s.toBroker k)
    (upward env debug procs k).reads (fun s => sessionLag (s.world.phase k)) where
  keeps := world_stable fun step now => running_step step now
  stays := world_stable fun step now => Nat.le_trans now (step_phase step k).1
  ready := session_ready
  works := by
    intro s x s' reach now step unread
    have moves := (upward env debug procs k).moves step
    rw [unread, Option.toList_none, List.nil_append] at moves
    cases step with
    | broker step offered =>
      rcases loop_step step now unread with ended | ⟨low, sinks⟩
      · exact Or.inl ended
      · refine Or.inr ⟨⟨_, moves.symm⟩, low, fun own => ?_⟩
        obtain ⟨a, same, mine⟩ := own
        cases same
        exact sinks mine
    | client step offered =>
      refine Or.inr ⟨⟨_, moves.symm⟩, Nat.le_refl _, fun own => ?_⟩
      obtain ⟨a, same, _⟩ := own
      cases same
  takes := by
    intro s x s' f reach now step read
    have moves := (upward env debug procs k).moves step
    rw [read] at moves
    cases step with
    | @broker a w step offered =>
      have front : s.toBroker k = f :: (s.brokerMoved a w).toBroker k := by
        simpa [upward, SystemAct.clientIO, ofConn] using moves
      exact Or.inr ⟨_, [], front, (List.append_nil _).symm⟩
    | client => cases read

theorem client_reader (k : ConnId) : Serves (SystemStep env debug) (System.start procs)
    (ClientReader k) (fun s => 3 ≤ (s.client k).runner.rank)
    (fun s => 4 ≤ (s.client k).runner.rank) (fun s => s.toClient k)
    (downward env debug procs k).reads (fun _ => 0) where
  keeps := client_stable (fun step now => Nat.le_trans now (step_runner_rank step)) k
  stays := client_stable (fun step now => Nat.le_trans now (step_runner_rank step)) k
  ready := by
    intro s reach now loops some
    obtain ⟨acts, run⟩ := reach
    obtain ⟨t, new⟩ := fresh_task (client_run run k)
    have reading : (s.client k).runner = .reading := by
      cases here : (s.client k).runner <;> rw [here] at now loops <;>
        simp [Runner.rank] at now loops
    cases content : s.toClient k with
    | nil => exact absurd content some
    | cons f rest =>
      obtain ⟨b, c, step, read⟩ := @reader_takes env.toVecNamed debug _ t reading new f
      refine ⟨.client k b, _, ⟨b, rfl, by simp [read]⟩, SystemStep.client step ?_⟩
      intro j g frame
      rw [read] at frame
      obtain ⟨rfl, same⟩ := on_eq.mp frame
      cases same
      rw [content]
      rfl
  works := by
    intro s x s' reach now step unread
    have moves := (downward env debug procs k).moves step
    rw [unread, Option.toList_none, List.nil_append] at moves
    refine Or.inr ⟨⟨_, moves.symm⟩, Nat.le_refl _, fun own => ?_⟩
    obtain ⟨b, rfl, read⟩ := own
    cases frame : clientReads b with
    | none => exact absurd frame read
    | some g =>
      have taken : (downward env debug procs k).reads (.client k b) = some g := by
        rw [downward_reads, frame]
      rw [unread] at taken
      cases taken
  takes := by
    intro s x s' f reach now step read
    have moves := (downward env debug procs k).moves step
    rw [read] at moves
    cases step with
    | broker => cases read
    | @client j b c step offered =>
      have front : s.toClient k = f :: (s.clientMoved j b c).toClient k := by
        simpa [downward, SystemAct.brokerIO, ofConn] using moves
      exact Or.inr ⟨_, [], front, (List.append_nil _).symm⟩

def CallTask (c : CallId) (x : SystemAct) : Prop := ∃ a, x = .broker a ∧ Own c a

def Polls (k : ConnId) (i : InvokeId) (x : SystemAct) : Prop :=
  ∃ b, x = .client k b ∧ polls b = some i

theorem own_silent (own : Own c a) : brokerReads a = none := by
  cases a <;> first | rfl | cases own

theorem call_task (c : CallId) : Fairness.Works (SystemStep env debug) (System.start procs)
    (CallTask c) (fun s => Timed c s.world) (fun s => Over s.world c)
    (fun s => (s.world.callPhase c).rank) 13 where
  keeps := by
    intro s x s' reach step now
    obtain ⟨acts, run⟩ := reach
    cases step with
    | broker step => exact timed_stable c _ _ _ ⟨_, broker_run run⟩ step now
    | client => exact now
  grows := by
    intro s x s' step
    cases step with
    | broker step => exact (@call_works env c).grows step
    | client => exact Nat.le_refl _
  climbs := by
    intro s x s' own step
    obtain ⟨a, rfl, mine⟩ := own
    cases step with
    | broker step => exact own_climbs mine step
  bounded := fun s => (@call_works env c).bounded s.world
  goes := by
    intro s reach now
    obtain ⟨acts, run⟩ := reach
    rcases (call_works c).goes ⟨_, broker_run run⟩ now with done | ⟨a, w, mine, step⟩
    · exact Or.inl done
    · refine Or.inr ⟨.broker a, _, ⟨a, rfl, mine⟩, SystemStep.broker step ?_⟩
      intro j f read
      rw [own_silent mine] at read
      cases read

theorem poll_works (k : ConnId) (i : InvokeId) : Fairness.Works (SystemStep env debug)
    (System.start procs) (Polls k i) (fun s => Woken i (s.client k))
    (fun s => ∀ r, (s.client k).invokePhase i ≠ .await r)
    (fun s => ((s.client k).invokePhase i).rank) 5 where
  keeps := client_stable (fun step now => woken_step step now) k
  grows := by
    intro s x s' step
    cases step with
    | broker => exact Nat.le_refl _
    | @client j b c step =>
      by_cases eq : j = k
      · subst eq
        simp only [System.clientMoved, Function.update_self]
        rcases step_invoke_rank step i with same | up
        · rw [same]
        · exact Nat.le_of_lt up
      · simp [System.clientMoved, Function.update_of_ne (Ne.symm eq)]
  climbs := by
    intro s x s' own step
    obtain ⟨b, rfl, mine⟩ := own
    cases step with
    | client step =>
      simp only [System.clientMoved, Function.update_self]
      cases step with
      | number here | register here | send here | sendClosed here | complete here
      | senderGone here =>
        cases mine
        simp [Client.setInvokePhase, here, InvokePhase.rank]
      | _ => cases mine
  bounded := by
    intro s
    cases (s.client k).invokePhase i <;> simp [InvokePhase.rank]
  goes := by
    intro s _ woken
    by_cases waits : ∃ r, (s.client k).invokePhase i = .await r
    · obtain ⟨r, here⟩ := waits
      obtain ⟨resp, value⟩ := Option.ne_none_iff_exists'.mp (woken.value r here)
      refine Or.inr ⟨.client k (.complete i resp), _, ⟨_, rfl, rfl⟩,
        SystemStep.client (ClientStep.complete here value) ?_⟩
      intro j f read
      cases read
    · exact Or.inl fun r here => waits ⟨r, here⟩

/-- The tasks on the way of an invoke are scheduled again and again. -/
structure Scheduled (e : Execution (SystemStep env debug) (System.start procs)) (k : ConnId)
    (i : InvokeId) : Prop where
  clientWriter : e.Fair (ClientWriter k)
  sessionLoop : e.Fair (SessionLoop k)
  calls : ∀ n inv c, .broker (.spawn k inv c) ∈ e.acts n → e.Fair (CallTask c)
  sessionWriter : e.Fair (SessionWriter k)
  clientReader : e.Fair (ClientReader k)
  poll : e.Fair (Polls k i)

/-- A writer of the connection or one of its main loops has ended. -/
def Broken (s : System) (k : ConnId) : Prop :=
  (s.client k).out.writer = .ended ∨ (s.world.out k).writer = .ended ∨
    10 ≤ (s.world.phase k).rank ∨ 4 ≤ (s.client k).runner.rank

structure Open (s : System) (k : ConnId) : Prop where
  clientWriter : Awake (s.client k).out
  sessionLoop : running (s.world.phase k) = true
  sessionWriter : Awake (s.world.out k)
  clientReader : 3 ≤ (s.client k).runner.rank

section handshake
variable {encoder : Encoder} {hello : HelloRequest} {handlers : String → Option HandlerId}
  {x x' : Client} {b : ClientAct} {steps : List ClientAct}

def joined : Runner → Bool
  | .connected | .reading => true
  | _ => false

theorem joined_acked (run : ClientRun encoder debug hello handlers steps x)
    (now : joined x.runner = true) : ∃ a, .acked a ∈ steps := by
  obtain ⟨b, mem, a, rfl⟩ := event_of_gained (fun b => ∃ a, b = .acked a)
    (p := fun x : Client => joined x.runner = true) (by simp [Client.new, joined])
    (fun v b v' step now => by
      cases step with
      | acked => exact Or.inr ⟨_, rfl⟩
      | run here => exact Or.inl (by rw [here]; rfl)
      | greet | greetBroken | refused | unread | hangup | stop | finish => cases now
      | _ => exact Or.inl now) run now
  exact ⟨a, mem⟩

end handshake

theorem opened {acts : List SystemAct} (run : SystemRun env debug procs acts s)
    (reading : (s.client k).runner = .reading) : Open s k := by
  have client := client_run run k
  have spawned : ClientAct.run ∈ clientActs k acts := by
    refine label_of_gained (p := fun c : Client => c.runner = .reading) (by simp [Client.new]) ?_
      client reading
    intro v b v' step now
    cases step with
    | run => exact Or.inr rfl
    | greet | greetBroken | acked | refused | unread | hangup | stop | finish => cases now
    | _ => exact Or.inl now
  obtain ⟨a, met⟩ := joined_acked client (by rw [reading]; rfl)
  obtain ⟨i, here⟩ := List.mem_iff_getElem?.mp (mem_clientActs.mp met)
  obtain ⟨_, _, _, _, _, told⟩ := TokimoGreeting.acked_registered run here
  have acked := mem_brokerActs.mpr (List.mem_of_mem_take told)
  constructor
  · refine holds_after (p := fun c : Client => Awake c.out) ?_ client spawned ?_
    · intro v b v' reach step awake
      exact awake_run (client_step_channel reach step) awake
    · intro v v' _ step
      cases step with
      | run => simp [Awake, Client.setRunner, Client.setOut, Outbound.spawn]
  · refine holds_after (p := fun w => running (w.phase k) = true) ?_ (broker_run run) acked ?_
    · intro v b v' _ step now
      exact running_step step now
    · intro v v' _ step
      cases step with
      | ack => simp [World.setPhase, running, Phase.rank, Stage.rank]
  · refine holds_after (p := fun w => Awake (w.out k)) ?_ (broker_run run) acked ?_
    · intro v b v' reach step awake
      exact awake_run (step_channel reach step k) awake
    · intro v v' _ step
      cases step with
      | ack => simp [Awake, World.setPhase, World.setOut, Outbound.spawn]
  · rw [reading]
    exact Nat.le_refl 3

theorem spawned_timed {log : List Act} {inv : Invoke} (run : BrokerRun env log w)
    (timeout : env.config.defaultCallTimeout.isZero = false) (spawned : .spawn k inv c ∈ log) :
    Timed c w := by
  refine holds_after (timed_stable c) run spawned ?_
  intro v v' _ step
  cases step with
  | spawn here new =>
    simp only [Timed, World.begin, World.setCallPhase, Function.update_self]
    unfold appCall
    split
    · simp [timeout]
    · simp [CallPhase.rank]

/-- An invoke that waits, of a client in its main loop, gets what it waits for, unless a writer or
    a main loop of the connection ends before. -/
theorem invoke_answered (e : Execution (SystemStep env debug) (System.start procs))
    (scheduled : Scheduled e k i) (few : ∀ n, Few (e.acts n))
    (timeout : env.config.defaultCallTimeout.isZero = false) {n : Nat} {r : UInt64}
    (reading : ((e.state n).client k).runner = .reading)
    (waits : ((e.state n).client k).invokePhase i = .await r) :
    ∃ m, n ≤ m ∧ (Broken (e.state m) k ∨ ∀ r, ((e.state m).client k).invokePhase i ≠ .await r) := by
  have start := opened (e.run n) reading
  obtain ⟨inv, sent, _⟩ := TokimoClient.await_sent (client_run (e.run n) k) waits
  have sent := mem_clientActs.mp sent
  have errand := invoke_errand (e.run n) (few n) sent
  -- the Invoke goes up
  obtain ⟨m, up, ended | ended | arrived⟩ := (upLine env debug procs k).delivers (client_writer k)
    client_wrote id (session_loop k) e scheduled.clientWriter scheduled.sessionLoop start.clientWriter
    start.sessionLoop errand.carries errand.sent
  · exact ⟨m, up, Or.inl (Or.inl ended)⟩
  · exact ⟨m, up, Or.inl (Or.inr (Or.inr (Or.inl ended)))⟩
  obtain ⟨c, spawned⟩ := (invoke_taken (e.run m)).mp arrived
  -- the task of the broker is over
  obtain ⟨l, served, done⟩ := (call_task c).reaches e (scheduled.calls m inv c spawned)
    (spawned_timed (broker_run (e.run m)) timeout (mem_brokerActs.mpr spawned))
  have sent' := (e.acts_grow (Nat.le_trans up served)).subset sent
  have spawned' := (e.acts_grow served).subset spawned
  have app := (TokimoResults.spawned_call (broker_run (e.run l)) (mem_brokerActs.mpr spawned')).2
  rcases TokimoResults.answered_replied (broker_run (e.run l)) app (done.2 k inv app) with
    ⟨resp, answered, named⟩ | dropped
  swap
  · have closed := dropped_closed (broker_run (e.run l)) (mem_brokerActs.mpr spawned') dropped
    exact ⟨l, by omega, Or.inl (Or.inr (Or.inl (not_not.mp closed)))⟩
  -- the Response comes down
  have errand' := invoke_errand (e.run l) (few l) sent'
  obtain ⟨plain, once⟩ := errand'.returns c _ spawned' ⟨resp, rfl, mem_brokerActs.mp answered⟩
  have order : n ≤ l := Nat.le_trans up served
  obtain ⟨q, down, ended | ended | read⟩ := (downLine env debug procs k).delivers (session_writer k)
    broker_wrote id (client_reader k) e scheduled.sessionWriter scheduled.clientReader
    (e.stays (session_writer k).keeps order start.sessionWriter)
    (e.stays (client_reader k).keeps order start.clientReader) plain once
  · exact ⟨q, by omega, Or.inl (Or.inr (Or.inl ended))⟩
  · exact ⟨q, by omega, Or.inl (Or.inr (Or.inr (Or.inr ended)))⟩
  obtain ⟨hit, met⟩ := response_met (e.run q) plain read
  have woken := read_woken (e.run q) (few q) ((e.acts_grow down).subset sent') met named
  -- the future is polled
  obtain ⟨p, last, free⟩ := (poll_works k i).reaches e scheduled.poll woken
  exact ⟨p, by omega, Or.inr free⟩

theorem writer_idle {encoder : Encoder} {o o' : Outbound} {y : WriterAct} (idle : o.writer = .idle)
    (empty : o.queue = []) (kept : o.aborted = false) : ¬ WriterStep encoder o y o' := by
  intro one
  cases one with
  | recv _ next => rw [empty] at next; cases next
  | wrote busy | rejected busy | broke busy => rw [idle] at busy; cases busy
  | cancelledIdle asked | cancelledBusy asked => rw [kept] at asked; cases asked

/-- The connection has nothing left to do. -/
structure Resting (s : System) (k : ConnId) (i : InvokeId) (c : CallId) : Prop where
  up : s.toBroker k = []
  down : s.toClient k = []
  clientWriter : (s.client k).out.writer = .idle ∧ (s.client k).out.queue = [] ∧
    (s.client k).out.aborted = false
  sessionWriter : (s.world.out k).writer = .idle ∧ (s.world.out k).queue = [] ∧
    (s.world.out k).aborted = false
  reading : ∃ ses, s.world.phase k = .live ses .read
  answered : Over s.world c
  returned : ((s.client k).invokePhase i).rank = 5

theorem loop_idle {ses : Session} (reading : s.world.phase k = .live ses .read)
    (empty : s.toBroker k = []) : ¬ Enabled (SystemStep env debug) (SessionLoop k) s := by
  intro enabled
  obtain ⟨x, s', ⟨a, rfl, own⟩, step⟩ := enabled
  cases step with
  | broker step offered =>
    have unread : ∀ f, brokerReads a ≠ some (k, f) := by
      intro f read
      have next := offered k f read
      simp [empty] at next
    cases step with
    | response | fanout | subscribe | unsubscribe | spawn | ignore =>
      cases own
      exact unread _ rfl
    | attach here | probe here | target here | deliver here | undelivered here | fanned here =>
      cases own
      rw [reading] at here
      cases here
    | _ => cases own

theorem resting_scheduled {t : System} {acts : List SystemAct} {n : Nat}
    (e : Execution (SystemStep env debug) (System.start procs))
    (rests : ∀ m, n ≤ m → e.state m = t ∧ e.acts m = acts) (resting : Resting t k i c)
    (alone : ∀ inv d, .broker (.spawn k inv d) ∈ acts → d = c) : Scheduled e k i where
  clientWriter := by
    refine rest_fair e rests ?_
    intro enabled
    obtain ⟨x, s', ⟨y, rfl⟩, step⟩ := enabled
    obtain ⟨idle, empty, kept⟩ := resting.clientWriter
    cases step with
    | client step =>
      cases step with
      | writer one => exact writer_idle idle empty kept one
  sessionLoop := by
    obtain ⟨ses, reading⟩ := resting.reading
    exact rest_fair e rests (loop_idle reading resting.up)
  calls := by
    intro m inv d spawned
    have later := (e.acts_grow (Nat.le_max_left m n)).subset spawned
    rw [(rests _ (Nat.le_max_right m n)).2] at later
    obtain rfl := alone inv d later
    refine rest_fair e rests ?_
    intro enabled
    obtain ⟨x, s', ⟨a, rfl, own⟩, step⟩ := enabled
    cases step with
    | broker step => exact @over_idle env _ _ resting.answered ⟨a, _, own, step⟩
  sessionWriter := by
    refine rest_fair e rests ?_
    intro enabled
    obtain ⟨x, s', ⟨y, rfl⟩, step⟩ := enabled
    obtain ⟨idle, empty, kept⟩ := resting.sessionWriter
    cases step with
    | broker step =>
      cases step with
      | writer one => exact writer_idle idle empty kept one
  clientReader := by
    refine rest_fair e rests ?_
    intro enabled
    obtain ⟨x, s', ⟨b, rfl, own⟩, step⟩ := enabled
    cases step with
    | client step offered =>
      cases read : clientReads b with
      | none => exact own read
      | some f =>
        have next := offered k f (on_eq.mpr ⟨rfl, read⟩)
        simp [resting.down] at next
  poll := by
    refine rest_fair e rests ?_
    intro enabled
    obtain ⟨x, s', ⟨b, rfl, own⟩, step⟩ := enabled
    have done := resting.returned
    cases step with
    | client step =>
      cases step with
      | number here | register here | send here | sendClosed here | complete here
      | senderGone here =>
        cases own
        simp [here, InvokePhase.rank] at done
      | _ => cases own

def lostInvoke : InvokeArgs := ⟨"video", "play", [5], CallerCtx.default⟩

def lostResponse : Response := ⟨1, .error (.serviceNotFound "video")⟩

def sentActs : List ClientAct :=
  [.writer (.recv (.invoke (lostInvoke.frame 1))), .writer (.wrote (.invoke (lostInvoke.frame 1)))]

def missedActs : List Act :=
  [.spawn 0 (lostInvoke.frame 1) 1, .localLookup 1 none, .lookupNone 1, .answer 1 0 lostResponse,
    .writer 0 (.recv (.response lostResponse)), .writer 0 (.wrote (.response lostResponse))]

def returnedActs : List ClientAct := [.response lostResponse (some 0), .complete 0 lostResponse]

theorem lost_broker : ∃ w, Run (Step TokimoWire.standardEnv) pingWorld missedActs w ∧
    ((w.out 0).writer = .idle ∧ (w.out 0).queue = [] ∧ (w.out 0).aborted = false) ∧
    w.phase 0 = .live pingSession .read ∧ w.callPhase 1 = .answered := by
  have fits : Fits TokimoWire.toVecNamed (.response lostResponse) := by decide +kernel
  obtain ⟨bytes, ok⟩ := fits_iff_written.mp fits
  have run := run_single (@Step.spawn TokimoWire.standardEnv pingWorld 0 pingSession
    (lostInvoke.frame 1) 1 rfl rfl)
  have run := run.snoc (Step.localMiss (c := 1) rfl rfl)
  have run := run.snoc (Step.lookupNone (c := 1) rfl rfl)
  have run := run.snoc (Step.answer (c := 1) (k := 0) rfl rfl (by decide))
  have run := run.snoc (Step.writer (k := 0) (.recv rfl rfl))
  have run := run.snoc (Step.writer (k := 0) (.wrote rfl ok))
  exact ⟨_, run, ⟨rfl, rfl, rfl⟩, rfl, rfl⟩

theorem lost_client : ∃ c, Run (ClientStep TokimoWire.toVecNamed quiet)
    (pingClient.queued 0 lostInvoke) sentActs c ∧ c.runner = .reading ∧ c.invokePhase 0 = .await 1 ∧
      c.pending 1 = some 0 ∧ c.out.writer = .idle ∧ c.out.queue = [] ∧ c.out.aborted = false := by
  have fits : Fits TokimoWire.toVecNamed (.invoke (lostInvoke.frame 1)) := by decide +kernel
  obtain ⟨bytes, ok⟩ := fits_iff_written.mp fits
  have run := run_single (@ClientStep.writer TokimoWire.toVecNamed quiet
    (pingClient.queued 0 lostInvoke) _ _ (.recv rfl rfl))
  have run := run.snoc (ClientStep.writer (.wrote rfl ok))
  exact ⟨_, run, rfl, rfl, rfl, rfl, rfl, rfl⟩

def calledActs : List SystemAct :=
  joinedActs ++ (TokimoClient.queueActs 0 lostInvoke 1).map (.client 0)

def answeringActs : List SystemAct :=
  sentActs.map (.client 0) ++ missedActs.map .broker ++ returnedActs.map (.client 0)

theorem lost_called : ∃ s, SystemRun TokimoWire.standardEnv quiet pingProcs calledActs s ∧
    (s.client 0).runner = .reading ∧ (s.client 0).invokePhase 0 = .await 1 ∧
    ∃ t, Run (SystemStep TokimoWire.standardEnv quiet) s answeringActs t ∧ Resting t 0 0 1 := by
  have calls : Run (ClientStep TokimoWire.toVecNamed quiet) pingClient _ _ :=
    invoke_queues (i := 0) (x := lostInvoke) rfl (Or.inl rfl) (by decide)
  obtain ⟨c, sends, reading, waits, listed, writer⟩ := lost_client
  obtain ⟨w, passes, session, loops, done⟩ := lost_broker
  have returns := @response_completes TokimoWire.toVecNamed quiet c 0 lostResponse reading waits listed
  have called := run_append ping_joins (@client_moves _ _ _ 0 _ _ _ _ _ _ [] calls rfl)
  have sent : Run (SystemStep TokimoWire.standardEnv quiet) (System.pair pingProcs 0 pingWorld
      (pingClient.queued 0 lostInvoke) [] []) _ _ := @client_moves _ _ _ 0 _ _ _ _ _ _ [] sends rfl
  have missed := run_append sent (@broker_moves _ _ _ 0 _ _ _ _ _ _ [] passes
    (by simp [missedActs, brokerReads, brokerWrites]) rfl)
  have returned := run_append missed (@client_moves _ _ _ 0 _ _ _ _ _ _ [] returns rfl)
  refine ⟨_, called, rfl, rfl, _, returned, ?_⟩
  constructor
  · rfl
  · rfl
  · simpa [System.pair, Client.answered, Client.setInvokePhase, Client.setPending, Client.wake,
      waits, InvokePhase.active] using writer
  · exact session
  · exact ⟨_, loops⟩
  · simp [Over, System.pair, done, CallPhase.rank]
  · simp [System.pair, Client.answered, Client.setInvokePhase, InvokePhase.rank]

theorem lost_answered :
    ∃ e : Execution (SystemStep TokimoWire.standardEnv quiet) (System.start pingProcs),
      Scheduled e 0 0 ∧ ((e.state calledActs.length).client 0).invokePhase 0 = .await 1 ∧
      ∃ m, calledActs.length ≤ m ∧ (Broken (e.state m) 0 ∨
        ∀ r, ((e.state m).client 0).invokePhase 0 ≠ .await r) := by
  obtain ⟨s, called, reading, waits, t, rest, resting⟩ := lost_called
  obtain ⟨e, there, _, rests⟩ := run_execution called rest
  have scheduled : Scheduled e 0 0 := by
    refine resting_scheduled e rests resting ?_
    intro inv d spawned
    have last : inv = lostInvoke.frame 1 ∧ d = 1 := by
      simpa [calledActs, joinedActs, answeringActs, TokimoProgress.issueActs,
        TokimoProgress.connectActs, missedActs] using spawned
    exact last.2
  have few : ∀ n, Few (e.acts n) := by
    intro n
    have grown := (e.acts_grow (Nat.le_max_left n (calledActs.length + answeringActs.length))).length_le
    rw [(rests _ (Nat.le_max_right _ _)).2] at grown
    exact few_short (Nat.lt_of_le_of_lt grown (by decide))
  have reads : ((e.state calledActs.length).client 0).runner = .reading := by rw [there, reading]
  have awaits : ((e.state calledActs.length).client 0).invokePhase 0 = .await 1 := by
    rw [there, waits]
  exact ⟨e, scheduled, awaits, invoke_answered e scheduled few rfl reads awaits⟩

end TokimoAnswers

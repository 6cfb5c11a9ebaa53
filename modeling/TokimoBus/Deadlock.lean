import TokimoBus.NestedProgress

/-!
Nested calls do not deadlock. If nothing moves, an invoke that waits for its Response has a task at
the broker that was spawned later, which waits for a task of some app that was spawned later still,
whose handler waits for an invoke that was begun later again. No run is long enough for that.
-/
namespace TokimoNested
open TokimoFrame TokimoOutbound TokimoBroker TokimoSession TokimoClient TokimoSystem TokimoChannel
open TokimoWire (standardEnv)
open TokimoConfinement TokimoResults TokimoEnabled LabelledRuns BoundedStream RequestTable
variable {env : Env} {debug : BusFrame → String} {programs : Programs} {cap : Capacity}
  {procs : Processes} {s : Nested} {u : System} {acts : List NestedAct}
  {before xs : List SystemAct} {k : ConnId} {t : TaskId} {i : InvokeId} {c : CallId} {inv : Invoke}
  {p q : Nat}

/-- A state in which nothing moves, after a run whose part `xs` was undisturbed. -/
structure Standstill (env : Env) (debug : BusFrame → String) (programs : Programs)
    (cap : Capacity) (procs : Processes) (before xs : List SystemAct) (s : Nested) : Prop where
  whole : SystemRun env debug procs (before ++ xs) s.system
  settled : Settled s.system
  apart : TokimoIdentity.Apart s.system.world
  known : Activated xs s
  stuck : ¬ CanMove env debug programs cap s
  quiet : ∀ k, Serving s.system k → Quiet s.system k

theorem owned_serving (still : Standstill env debug programs cap procs before xs s)
    (owned : (s.system.client k).Owned) : Serving s.system k := by
  rcases still.settled k with serving | absent
  · exact serving
  · have rank := TokimoPending.owned_rank (client_run still.whole k) owned
    rw [absent.runner] at rank
    simp [Runner.rank] at rank

theorem attached_serving (still : Standstill env debug programs cap procs before xs s)
    (attached : 8 ≤ (s.system.world.phase k).rank) : Serving s.system k := by
  rcases still.settled k with serving | absent
  · exact serving
  · rw [absent.phase] at attached
    simp [Phase.rank] at attached

theorem waiting_call (still : Standstill env debug programs cap procs before xs s)
    (waits : Awaits (s.system.client k) i)
    (sent : Happens (before ++ xs) p (.client k (.send i inv))) :
    ∃ q c, p < q ∧ Happens (before ++ xs) q (.broker (.spawn k inv c)) ∧
      Waits s.system.world c := by
  obtain ⟨_, _, ⟨r, listed⟩, owned⟩ := waits
  have quiet := still.quiet k (owned_serving still owned)
  have part := client_run still.whole k
  have frame := (send_frame part (mem_clientActs.mpr (List.mem_of_getElem? sent))).2
  obtain ⟨_, rfl⟩ := number_once _ part (slot_numbered
    (invokes env.toVecNamed debug (procs.hello k) (procs.handlers k)) part (k := ()) listed) frame
  obtain ⟨q, c, later, spawned⟩ := spawned_later still.whole quiet sent
  have broker := broker_run still.whole
  obtain ⟨begun, app⟩ := spawned_call broker (mem_brokerActs.mpr (List.mem_of_getElem? spawned))
  rcases stuck_call still.stuck ⟨_, broker⟩ app begun with ended | waits
  · exact absurd listed (answered_unlisted still.whole quiet sent spawned later ended)
  · exact ⟨q, c, later, spawned, waits⟩

theorem waiting_task (still : Standstill env debug programs cap procs before xs s)
    (spawned : Happens (before ++ xs) p (.broker (.spawn k inv c)))
    (waits : Waits s.system.world c) :
    ∃ q j inv' t, p < q ∧ Happens (before ++ xs) q (.client j (.invoke inv' t)) ∧
      ∃ inv'' h, (s.system.client j).task t = .running inv'' h := by
  obtain ⟨⟨l, r, await⟩, _, j, r', listed, _⟩ := waits
  have broker := broker_run still.whole
  obtain ⟨inv', mem, rfl⟩ := TokimoCorrelation.await_apart broker still.apart await
  have attached := (TokimoTeardown.held ⟨_, broker⟩).handle c l (by rw [await]; rfl)
  have quiet := still.quiet l (attached_serving still attached)
  have ticket : Numbered (TokimoCorrelation.calls env) (brokerActs (before ++ xs)) c l inv'.reqId := by
    apply ticket_numbered _ broker
    change TokimoCalls.ticket (s.system.world.callPhase c) = _
    rw [await]
    rfl
  obtain ⟨rfl, rfl⟩ := number_once _ broker (slot_numbered _ broker listed) ticket
  obtain ⟨m, sent⟩ := List.mem_iff_getElem?.mp (mem_brokerActs.mp mem)
  have first := spawned_first still.whole spawned sent (by simp) fun w w' step => by
    cases step with
    | send => simp [World.setCallPhase]
  obtain ⟨q, t, later, invoked⟩ := invoked_later still.whole quiet sent
  have place : p < q := Nat.lt_trans first later
  rcases stuck_task still.stuck j t with new | ⟨inv, h, running⟩ | ended
  · obtain ⟨v, w, reach, step, after⟩ := run_at still.whole invoked
    have used : 1 ≤ ((w.client j).task t).rank := by
      cases step with
      | client one =>
        cases one with
        | invoke => simp [System.clientMoved, Client.setTask, TaskPhase.rank]
    have still := stable_run (client_stable (p := fun c => 1 ≤ (c.task t).rank) (fun step now =>
      Nat.le_trans now (step_task step t).rank) j) (reachable_step ⟨_, reach⟩ step) after used
    simp [new, TaskPhase.rank] at still
  · exact ⟨q, j, inv', t, place, invoked, inv, h, running⟩
  · exact absurd listed (finished_unlisted still.whole quiet sent invoked later ended)

theorem later_place {p : Nat} {x : SystemAct} (here : Happens xs p x) :
    Happens (before ++ xs) (before.length + p) x := by
  rw [Happens, List.getElem?_append_right (Nat.le_add_right _ _), Nat.add_sub_cancel_left]
  exact here

theorem invoke_stable (k : ConnId) (i : InvokeId) : Stable (SystemStep env debug)
    (System.start procs) fun s => 1 ≤ ((s.client k).invokePhase i).rank := by
  refine client_stable (p := fun c => 1 ≤ (c.invokePhase i).rank) ?_ k
  intro c b c' step now
  rcases step_invoke_rank step i with same | up
  · rwa [same]
  · exact Nat.le_trans now (Nat.le_of_lt up)

theorem waiting_invoke {h : HandlerId} {inv' : Invoke}
    (still : Standstill env debug programs cap procs before xs s)
    (invoked : Happens (before ++ xs) p (.client k (.invoke inv t)))
    (running : (s.system.client k).task t = .running inv' h) :
    ∃ q i inv'', p < q ∧ Happens (before ++ xs) q (.client k (.send i inv'')) ∧
      Awaits (s.system.client k) i := by
  obtain ⟨act, here⟩ := Option.ne_none_iff_exists'.mp (still.known.covers k t inv' h running)
  have part := client_run still.whole k
  obtain ⟨n, live, _, waits⟩ := stuck_handler still.stuck still.known (fresh_invoke part) here
  obtain ⟨l, inv₁, h₁, handled, begins⟩ := (still.known.sound k t act here).after
  obtain ⟨m, x, order, began⟩ := begins n live
  have first := invoked_first still.whole invoked (later_place handled) (by simp) fun c c' step => by
    cases step with
    | handle => simp [Client.setTask, TaskPhase.rank]
  obtain ⟨r, await⟩ := waits.1
  obtain ⟨inv'', mem, _⟩ := await_sent part await
  obtain ⟨q, sent⟩ := List.mem_iff_getElem?.mp (mem_clientActs.mp mem)
  have second : before.length + m < q := by
    refine happens_before (invoke_stable k (act.id n)) still.whole (later_place began) sent (by simp)
      ?_ ?_
    · intro v w step used
      cases step with
      | client one =>
        cases one with
        | begin new => simp [new, InvokePhase.rank] at used
    · intro v w _ step
      cases step with
      | client one =>
        have rank := (TokimoClient.send_rank one).2
        simp [System.clientMoved, rank]
  exact ⟨q, act.id n, inv'', by omega, sent, waits⟩

/-- An invoke that waits makes a later one wait. -/
theorem waiting_later (still : Standstill env debug programs cap procs before xs s)
    (waits : Awaits (s.system.client k) i)
    (sent : Happens (before ++ xs) p (.client k (.send i inv))) :
    ∃ q j i' inv', p < q ∧ Happens (before ++ xs) q (.client j (.send i' inv')) ∧
      Awaits (s.system.client j) i' := by
  obtain ⟨p₁, c, order₁, spawned, waiting⟩ := waiting_call still waits sent
  obtain ⟨p₂, j, inv₂, t, order₂, invoked, inv₃, h, running⟩ := waiting_task still spawned waiting
  obtain ⟨q, i', inv', order₃, sent', waits'⟩ := waiting_invoke still invoked running
  exact ⟨q, j, i', inv', by omega, sent', waits'⟩

theorem none_waits (still : Standstill env debug programs cap procs before xs s)
    (sent : Happens (before ++ xs) p (.client k (.send i inv))) :
    ¬ Awaits (s.system.client k) i := by
  induction left : (before ++ xs).length - p using Nat.strongRecOn generalizing p k i inv with
  | ind n ih =>
    intro waits
    obtain ⟨q, j, i', inv', later, sent', waits'⟩ := waiting_later still waits sent
    have inside := (List.getElem?_eq_some_iff.mp sent').1
    exact ih ((before ++ xs).length - q) (by omega) sent' rfl waits'

/-- From any reachable state in which an invoke is pending, something moves. -/
theorem nested_calls_move {first : List SystemAct} (start : SystemRun env debug procs first u)
    (assembled : Assembled u) (room : ∀ k, 0 < cap.up k ∧ 0 < cap.down k)
    (run : NestedRun env debug programs cap u acts s)
    (fitting : ∀ x ∈ systemActs acts, Fitting env x) (pending : Pending s) :
    ∃ a s', NestedStep env debug programs cap s a s' ∧ Moves s a := by
  by_contra stuck
  have undisturbed := nested_system run
  have whole : SystemRun env debug procs (first ++ systemActs acts) s.system :=
    run_append start (guarded_run undisturbed)
  have known := handlers_sound assembled run
  have quiet : ∀ k, Serving s.system k → Quiet s.system k := by
    intro k serving
    have flowing := streams_flow assembled run fitting serving
    constructor
    · exact serving.phase
    · exact serving.runner
    · exact stuck_up stuck serving flowing (room k).1 (fresh_call (broker_run whole))
    · exact stuck_down stuck serving flowing (room k).2 (fresh_task (client_run whole k))
  have still : Standstill env debug programs cap procs first (systemActs acts) s :=
    ⟨whole, undisturbed_settled assembled undisturbed, undisturbed_apart start assembled undisturbed,
      known, stuck, quiet⟩
  obtain ⟨k, i, waits⟩ := stuck_pending stuck known (fun k => fresh_invoke (client_run whole k))
    pending
  obtain ⟨r, await⟩ := waits.1
  obtain ⟨inv, mem, _⟩ := await_sent (client_run whole k) await
  obtain ⟨p, sent⟩ := List.mem_iff_getElem?.mp (mem_clientActs.mp mem)
  exact none_waits still sent waits

def selfCaller : Programs := fun _ _ payload _ =>
  .invoke 0 (by simp) (pingInvoke payload) (.wait {0} (by simp) (by simp) fun n mem result => by
    obtain rfl := Finset.mem_singleton.mp mem
    exact .ret result)

def narrow : Capacity := ⟨fun _ => 1, fun _ => 1⟩

def pingSystem : System := System.pair pingProcs 0 pingWorld pingClient [] []

theorem ping_assembled : Assembled pingSystem := by
  have idle : ∀ k, k ≠ 0 → Absent pingSystem k := by
    intro k other
    constructor
    · simp [pingSystem, System.pair, pingWorld, TokimoProgress.World.connected,
        TokimoProgress.World.issued, World.setPhase, World.begin, World.setCallPhase, World.setOut,
        World.withBroker, World.init, other]
    · simp [pingSystem, System.pair, System.start, Client.new, other]
  have joined : Joined pingSystem 0 := by
    constructor
    · exact ⟨pingSession, rfl⟩
    · rfl
    · exact ⟨rfl, rfl, rfl⟩
    · exact ⟨rfl, rfl, rfl⟩
  have alone : ∀ k ses, pingSystem.world.session k = some ses → k = 0 := by
    intro k ses session
    by_contra other
    simp [World.session, (idle k other).phase, Phase.session] at session
  constructor
  · intro k
    by_cases here : k = 0
    · subst here
      exact Or.inl joined
    · exact Or.inr (idle k here)
  · intro j k ses ses' first second _
    rw [alone j ses first, alone k ses' second]
  · intro k t inv h running
    by_cases here : k = 0
    · subst here
      cases running
    · simp [pingSystem, System.pair, System.start, Client.new, here] at running

def firstCall : List NestedAct :=
  (TokimoClient.queueActs 0 (pingInvoke [5]) 1).map fun b => .system (.client 0 b)

theorem self_call_begins : ∃ s, NestedRun standardEnv quiet selfCaller narrow pingSystem firstCall s ∧
    (s.system.client 0).invokePhase 0 = .await 1 := by
  have silent : ∀ {s : Nested} {b : ClientAct}, clientReads b = none →
      Offers s.system.toClient (on 0 (clientReads b)) := by
    intro s b unread
    simp [Offers, on, unread]
  have run : NestedRun standardEnv quiet selfCaller narrow pingSystem [] (Nested.start pingSystem) :=
    Run.nil
  have run := run.snoc (NestedStep.system (.client (@ClientStep.begin _ _ _ 0 (pingInvoke [5]) rfl
    (Or.inl rfl)) (silent rfl)) trivial trivial (silent_carried rfl rfl))
  have run := run.snoc (NestedStep.system (.client (@ClientStep.number _ _ _ 0 rfl) (silent rfl))
    trivial (by intro t act n here; cases here) (silent_carried rfl rfl))
  have run := run.snoc (NestedStep.system (.client (@ClientStep.register _ _ _ 0 1 rfl) (silent rfl))
    trivial (by intro t act n here; cases here) (silent_carried rfl rfl))
  have run := run.snoc (NestedStep.system (.client (@ClientStep.send _ _ _ 0 1 rfl (by decide))
    (silent rfl)) trivial (by intro t act n here; cases here) (silent_carried rfl rfl))
  exact ⟨_, run, rfl⟩

theorem self_call_moves : ∃ s, NestedRun standardEnv quiet selfCaller narrow pingSystem firstCall s ∧
    Pending s ∧ ∃ a s', NestedStep standardEnv quiet selfCaller narrow s a s' ∧ Moves s a := by
  obtain ⟨s, run, waits⟩ := self_call_begins
  have pending : Pending s := ⟨0, 0, by rw [waits]; rfl⟩
  have fitting : ∀ x ∈ systemActs firstCall, Fitting standardEnv x := by
    have fits : Fits standardEnv.toVecNamed (.invoke ((pingInvoke [5]).frame 1)) := by
      change Fits TokimoWire.toVecNamed _
      decide +kernel
    simpa [systemActs, firstCall, TokimoClient.queueActs, registerActs, NestedAct.ofSystem, Fitting,
      SystemAct.brokerIO, SystemAct.clientIO, ClientAct.sends, on] using fits
  exact ⟨s, run, pending, nested_calls_move ping_joins ping_assembled
    (fun _ => ⟨Nat.one_pos, Nat.one_pos⟩) run fitting pending⟩

end TokimoNested

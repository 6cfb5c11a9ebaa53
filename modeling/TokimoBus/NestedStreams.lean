import TokimoBus.NestedFacts

/-!
The bytes of nested calls. On the streams of a connection that is served, the bytes that the
writer has put in are those of the frames that the reader has not read, and every frame that
waits for the writer fits.
-/
namespace TokimoNested
open TokimoFrame TokimoOutbound TokimoBroker TokimoSession TokimoClient TokimoSystem TokimoChannel
open LabelledRuns BoundedStream Pipes
variable {env : Env} {debug : BusFrame → String} {programs : Programs} {cap : Capacity}
  {s s' : Nested} {u v : System} {a : NestedAct} {x : SystemAct} {acts : List NestedAct}
  {k : ConnId} {o o' : Outbound} {queued io : Option BusFrame} {f : BusFrame}

def writing (o : Outbound) : Option BusFrame :=
  match o.writer with
  | .writing f => some f
  | _ => none

/-- What a step does to a channel whose writer goes on, by the frame that it queues and the frame
    that it writes whole. -/
structure Passes (o : Outbound) (queued io : Option BusFrame) (o' : Outbound) : Prop where
  order : held o ++ queued.toList = io.toList ++ held o'
  writer : (io = none ∧ writing o' = writing o) ∨
    (io = none ∧ writing o = none ∧ ∃ f ∈ held o, writing o' = some f) ∨
    ∃ f, io = some f ∧ writing o = some f ∧ writing o' = none

theorem passes_push (f : BusFrame) : Passes o (some f) none (o.push f) where
  order := by
    unfold held
    simp only [Outbound.push]
    split <;> rfl
  writer := Or.inl ⟨rfl, rfl⟩

theorem passes_same : Passes o none none o where
  order := by simp
  writer := Or.inl ⟨rfl, rfl⟩

theorem passes_writer {e : Encoder} {y : WriterAct} (one : WriterStep e o y o') (intact : Intact y) :
    Passes o none (ChannelAct.writer y).wrote o' := by
  cases one with
  | recv idle next =>
    constructor
    · simp [held, idle, next, ChannelAct.wrote]
    · refine Or.inr (Or.inl ⟨rfl, ?_, _, ?_, rfl⟩)
      · simp [writing, idle]
      · simp [held, idle, next]
  | wrote busy =>
    constructor
    · simp [held, busy, ChannelAct.wrote, Outbound.direct]
    · refine Or.inr (Or.inr ⟨_, rfl, ?_, rfl⟩)
      simp [writing, busy]
  | _ => cases intact

theorem client_passes {encoder : Encoder} {c c' : Client} {b : ClientAct}
    (step : ClientStep encoder debug c b c') (undisturbed : Undisturbed (.client k b))
    (runner : c.runner = .reading) : Passes c.out b.sends (clientWrites b) c'.out := by
  cases step with
  | @writer y _ one =>
    have passes := passes_writer one undisturbed
    cases y <;> exact passes
  | ping | reply | send | publish | subscribe => exact passes_push _
  | greet here | greetBroken here | acked here | refused here | unread here | run here | stop here
  | finish here =>
    rw [runner] at here
    cases here
  | _ => exact passes_same

theorem broker_passes {w w' : World} {a : Act} (step : Step env w a w')
    (undisturbed : Undisturbed (.broker a)) (phase : (w.phase k).rank = 9) :
    Passes (w.out k) (ofConn k (queues a)) (ofConn k (brokerWrites a)) (w'.out k) := by
  have apart : ∀ {j : ConnId} {q : Phase} {o : Outbound} {f : Option BusFrame}, w.phase j = q →
      q.rank ≠ 9 → Passes (w.out k) none (ofConn k (on j f)) (Function.update w.out j o k) := by
    intro j q o f here other
    have ne : j ≠ k := by
      rintro rfl
      rw [here] at phase
      exact other phase
    rw [Function.update_of_ne (Ne.symm ne), ofConn_on, if_neg ne]
    exact passes_same
  have pushes : ∀ {j : ConnId} {f : BusFrame}, Passes (w.out k) (ofConn k (some (j, f))) none
      (Function.update w.out j ((w.out j).push f) k) := by
    intro j f
    by_cases eq : j = k
    · subst eq
      simpa [ofConn] using passes_push f
    · simpa [ofConn, eq, Ne.symm eq] using passes_same
  cases step with
  | deliver | send | answer | shutdownSend => exact pushes
  | @reject j e here =>
    exact apart (f := some (rejection e)) here (by simp [Phase.rank])
  | @ack j ses f here => exact apart (f := some f) here (by simp [Phase.rank, Stage.rank])
  | rejectBroken here | ackBroken here | rollback here | abort here =>
    exact apart (f := none) here (by simp [Phase.rank, Stage.rank])
  | @writer j y o one =>
    by_cases eq : j = k
    · subst eq
      have passes := passes_writer one undisturbed
      cases y <;> simpa [World.setOut, queues, brokerWrites, ofConn, ChannelAct.wrote] using passes
    · have same : Passes (w.out k) none none (w.out k) := passes_same
      cases y <;> simpa [World.setOut, queues, brokerWrites, ofConn, eq, Ne.symm eq] using same
  | _ => exact passes_same

theorem account_passes {bytes : BusFrame → Nat} {capacity : Nat} {pipe : List BusFrame}
    {stream : Stream} (account : BoundedStream.Account bytes pipe (writing o) stream)
    (passes : Passes o queued io o') (fits : ∀ f ∈ held o, 0 < bytes f)
    (room : ∀ f, io = some f → CanFinish capacity bytes stream f) :
    BoundedStream.Account bytes (pipe ++ io.toList) (writing o')
      (if io.isSome then stream.finish else stream) := by
  rcases passes.writer with ⟨rfl, same⟩ | ⟨rfl, idle, f, waits, busy⟩ | ⟨f, rfl, busy, idle⟩
  · simpa [same] using account
  · rw [idle] at account
    rw [busy]
    simpa using account_begin account (fits f waits)
  · rw [busy] at account
    rw [idle]
    exact account_finish account (room f rfl)

theorem account_offered {bytes : BusFrame → Nat} {pipe rest : List BusFrame} {stream : Stream}
    {frame : Option BusFrame} (account : BoundedStream.Account bytes pipe frame stream)
    (parts : io.toList ++ rest = pipe) (whole : ∀ f, io = some f → Whole bytes stream f) :
    BoundedStream.Account bytes rest frame (if io.isSome then stream.deliver else stream) := by
  subst parts
  cases io with
  | none => exact account
  | some f => exact account_deliver account (whole f rfl)

theorem applyAt_at (op : Stream → Stream) (streams : ConnId → Stream)
    (io : Option (ConnId × BusFrame)) (k : ConnId) :
    applyAt op streams io k = if (ofConn k io).isSome then op (streams k) else streams k := by
  cases io with
  | none => rfl
  | some p =>
    obtain ⟨j, f⟩ := p
    by_cases eq : j = k
    · subst eq
      simp [applyAt, ofConn]
    · simp [applyAt, ofConn, eq, Ne.symm eq]

theorem fits_size (fits : Fits env.toVecNamed f) : 0 < size env f := by
  obtain ⟨bytes, encoded⟩ := fits_iff_written.mp fits
  have whole : frameBytes env.toVecNamed f = bytes := by
    unfold frameBytes
    rw [encoded]
  unfold writeFrame at encoded
  split at encoded
  · cases encoded
  · split at encoded
    · cases encoded
    · cases encoded
      simp [size, whole, toBeBytes]

def Fitting (env : Env) (x : SystemAct) : Prop :=
  ∀ k f, x.brokerIO queues = some (k, f) ∨ x.clientIO ClientAct.sends = some (k, f) →
    Fits env.toVecNamed f

/-- The streams of a connection carry what its writers have written, and its writers can go on. -/
structure Flowing (env : Env) (s : Nested) (k : ConnId) : Prop where
  up : BoundedStream.Account (size env) (s.system.toBroker k) (writing (s.system.client k).out)
    (s.up k)
  down : BoundedStream.Account (size env) (s.system.toClient k) (writing (s.system.world.out k))
    (s.down k)
  upFits : ∀ f ∈ held (s.system.client k).out, Fits env.toVecNamed f
  downFits : ∀ f ∈ held (s.system.world.out k), Fits env.toVecNamed f

theorem passes_fits (passes : Passes o queued io o') (fits : ∀ f ∈ held o, Fits env.toVecNamed f)
    (new : ∀ f, queued = some f → Fits env.toVecNamed f) : ∀ f ∈ held o', Fits env.toVecNamed f := by
  intro f mem
  have either : f ∈ held o ++ queued.toList := by
    rw [passes.order]
    exact List.mem_append_right _ mem
  rcases List.mem_append.mp either with old | pushed
  · exact fits f old
  · exact new f (Option.mem_toList.mp pushed)

theorem flowing_broker {a : Act} {w : World} (flowing : Flowing env s k)
    (step : Step env s.system.world a w) (offered : Offers s.system.toBroker (brokerReads a))
    (undisturbed : Undisturbed (.broker a)) (carried : Carried env cap s (.broker a))
    (fitting : Fitting env (.broker a)) (phase : (s.system.world.phase k).rank = 9) :
    Flowing env (s.moved (.broker a) (s.system.brokerMoved a w)) k := by
  have passes := broker_passes step undisturbed phase
  constructor
  · have account := account_offered flowing.up (pull_content offered k) fun f same =>
      carried.atBroker k f (ofConn_eq.mp same)
    rwa [← applyAt_at Stream.deliver] at account
  · have account := account_passes flowing.down passes
      (fun f waits => fits_size (flowing.downFits f waits)) fun f same =>
        carried.down k f (ofConn_eq.mp same)
    rwa [← applyAt_at Stream.finish, ← put_content] at account
  · exact flowing.upFits
  · exact passes_fits passes flowing.downFits fun f same => fitting k f (Or.inl (ofConn_eq.mp same))

theorem flowing_client {j : ConnId} {b : ClientAct} {c : Client} (flowing : Flowing env s k)
    (step : ClientStep env.toVecNamed debug (s.system.client j) b c)
    (offered : Offers s.system.toClient (on j (clientReads b)))
    (undisturbed : Undisturbed (.client j b)) (carried : Carried env cap s (.client j b))
    (fitting : Fitting env (.client j b)) (runner : (s.system.client k).runner = .reading) :
    Flowing env (s.moved (.client j b) (s.system.clientMoved j b c)) k := by
  have passes : Passes (s.system.client k).out (ofConn k (on j b.sends))
      (ofConn k (on j (clientWrites b))) (Function.update s.system.client j c k).out := by
    rw [ofConn_on, ofConn_on]
    by_cases eq : j = k
    · subst eq
      simpa using client_passes (k := j) step undisturbed runner
    · simpa [eq, Ne.symm eq] using passes_same
  constructor
  · have account := account_passes flowing.up passes
      (fun f waits => fits_size (flowing.upFits f waits)) fun f same =>
        carried.up k f (ofConn_eq.mp same)
    rwa [← applyAt_at Stream.finish, ← put_content] at account
  · have account := account_offered flowing.down (pull_content offered k) fun f same =>
      carried.atClient k f (ofConn_eq.mp same)
    rwa [← applyAt_at Stream.deliver] at account
  · exact passes_fits passes flowing.upFits fun f same => fitting k f (Or.inr (ofConn_eq.mp same))
  · exact flowing.downFits

theorem flowing_moved (flowing : Flowing env s k) (step : SystemStep env debug s.system x v)
    (undisturbed : Undisturbed x) (carried : Carried env cap s x) (fitting : Fitting env x)
    (serving : Serving s.system k) : Flowing env (s.moved x v) k := by
  cases step with
  | broker one offered =>
    exact flowing_broker flowing one offered undisturbed carried fitting serving.phase
  | client one offered =>
    exact flowing_client flowing one offered undisturbed carried fitting serving.runner

theorem silent_carried {j : ConnId} {b : ClientAct} (unread : clientReads b = none)
    (unwritten : clientWrites b = none) : Carried env cap s (.client j b) := by
  constructor <;> simp [SystemAct.clientIO, SystemAct.brokerIO, on, unread, unwritten]

theorem flowing_step (step : NestedStep env debug programs cap s a s')
    (fitting : ∀ x ∈ a.ofSystem, Fitting env x) (serving : Serving s.system k)
    (flowing : Flowing env s k) : Flowing env s' k := by
  have kept : ∀ {j : ConnId} {streams : ConnId → Stream} {x : Stream} {bytes : BusFrame → Nat}
      {pipe : List BusFrame} {o : Outbound}, BoundedStream.Account bytes pipe (writing o) (streams k) →
      (j = k → BoundedStream.Account bytes pipe (writing o) x) →
      BoundedStream.Account bytes pipe (writing o) (Function.update streams j x k) := by
    intro j streams x bytes pipe o account moved
    by_cases eq : k = j
    · subst eq
      rw [Function.update_self]
      exact moved rfl
    · rwa [Function.update_of_ne eq]
  obtain ⟨up, down, upFits, downFits⟩ := flowing
  cases step with
  | system one undisturbed _ carried =>
    exact flowing_moved ⟨up, down, upFits, downFits⟩ one undisturbed carried
      (fitting _ (List.mem_singleton.mpr rfl)) serving
  | @fillUp j f busy room =>
    refine ⟨kept up ?_, down, upFits, downFits⟩
    rintro rfl
    have frame : writing (s.system.client j).out = some f := by simp [writing, busy]
    rw [frame] at up
    have filled := account_fill up room
    rwa [← frame] at filled
  | @fillDown j f busy room =>
    refine ⟨up, kept down ?_, upFits, downFits⟩
    rintro rfl
    have frame : writing (s.system.world.out j) = some f := by simp [writing, busy]
    rw [frame] at down
    have filled := account_fill down room
    rwa [← frame] at filled
  | drainUp _ bytes =>
    refine ⟨kept up ?_, down, upFits, downFits⟩
    rintro rfl
    exact account_drain up bytes
  | drainDown _ bytes =>
    refine ⟨up, kept down ?_, upFits, downFits⟩
    rintro rfl
    exact account_drain down bytes
  | handle one | invoke _ one | drop _ one | ret _ one =>
    obtain ⟨up, down, upFits, downFits⟩ := @flowing_moved env debug cap s _ _ k
      ⟨up, down, upFits, downFits⟩ one trivial (silent_carried rfl rfl)
      (fitting _ (List.mem_singleton.mpr rfl)) serving
    exact ⟨up, down, upFits, downFits⟩
  | resume | release => exact ⟨up, down, upFits, downFits⟩

theorem joined_flowing (joined : Joined u k) : Flowing env (Nested.start u) k := by
  obtain ⟨_, _, ⟨upIdle, upEmpty, upPipe⟩, ⟨downIdle, downEmpty, downPipe⟩⟩ := joined
  constructor
  · simpa [Nested.start, writing, upIdle, upPipe] using account_empty
  · simpa [Nested.start, writing, downIdle, downPipe] using account_empty
  · simp [Nested.start, held, upIdle, upEmpty]
  · simp [Nested.start, held, downIdle, downEmpty]

theorem nested_settled (assembled : Assembled u) (run : NestedRun env debug programs cap u acts s) :
    Settled s.system :=
  undisturbed_settled assembled (nested_system run)

/-- The streams of every connection that is served flow. -/
theorem streams_flow (assembled : Assembled u) (run : NestedRun env debug programs cap u acts s)
    (fitting : ∀ x ∈ systemActs acts, Fitting env x) (serving : Serving s.system k) :
    Flowing env s k := by
  revert fitting serving
  refine run_history (p := fun acts s => (∀ x ∈ systemActs acts, Fitting env x) →
    Serving s.system k → Flowing env s k) ?_ ?_ run
  · intro _ serving
    rcases assembled.apps k with joined | absent
    · exact joined_flowing joined
    · exact absurd serving (absent_idle absent)
  · intro acts s a s' before step known fitting serving
    have last : ∀ x ∈ a.ofSystem, Fitting env x := by
      intro x mem
      exact fitting x (by simp [systemActs, mem])
    rcases nested_settled assembled before k with was | absent
    · have early : ∀ x ∈ systemActs acts, Fitting env x := by
        intro x mem
        apply fitting x
        rw [systemActs, List.flatMap_append]
        exact List.mem_append_left _ mem
      exact flowing_step step last was (known early was)
    · exact absurd serving (absent_idle (absent_run (step_system step) absent))

end TokimoNested

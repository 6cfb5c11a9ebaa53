import TokimoBus.Slices
import TokimoBus.EndToEnd

/-!
The system down to the bytes on its streams. What a party writes is appended as bytes, whole
frames and the pieces of torn ones; what it reads is what `read_frame_opt` makes of the bytes
that are there, in whatever pieces they arrive. Such a system does exactly what the system of
frames does.
-/
namespace TokimoBytes
open TokimoFrame TokimoOutbound TokimoBroker TokimoSession TokimoClient TokimoCodec TokimoSystem
open TokimoWriter TokimoChannel TokimoWire TokimoDecoding TokimoSlices ChunkedStream LabelledRuns
open Pipes

def brokerCuts : Act → Option (ConnId × Bytes)
  | .rejectBroken k cut | .ackBroken k cut => some (k, cut)
  | .writer k (.broke _ cut) | .writer k (.cancelled cut) => some (k, cut)
  | _ => none

def clientCuts : ClientAct → Option Bytes
  | .greetBroken cut | .writer (.broke _ cut) | .writer (.cancelled cut) => some cut
  | _ => none

def cutOn (k : ConnId) : Option (ConnId × Bytes) → Option Bytes
  | some (j, cut) => if j = k then some cut else none
  | none => none

/-- The bytes are less than their own length prefix announces. A write does not fail any more
    once the last byte of its frame has been taken. -/
def Short (bytes : Bytes) : Prop :=
  bytes.length < 4 ∨ bytes.length < 4 + (fromBeBytes (bytes.take 4)).toNat

def cuts : SystemAct → Option (ConnId × Bytes)
  | .broker a => brokerCuts a
  | .client k b => (clientCuts b).map fun cut => (k, cut)

def Partial (x : SystemAct) : Prop := ∀ k cut, cuts x = some (k, cut) → Short cut

def emitted (encoder : Encoder) (whole : Option BusFrame) (cut : Option Bytes) : Bytes :=
  (whole.map (frameBytes encoder)).getD [] ++ cut.getD []

/-- `read_frame_opt` finds the frame at the front of the bytes and leaves the rest, however the
    transport has cut them into pieces. -/
def Reads (decode : Bytes → Except String BusFrame) (f : BusFrame) (pipe rest : Bytes) : Prop :=
  ∃ r left : Reader, r.content = pipe ∧ readFrameOpt decode r = (.ok (some f), left) ∧
    left.content = rest

def Taken (decode : Bytes → Except String BusFrame) (io : Option BusFrame) (pipe rest : Bytes) :
    Prop :=
  match io with
  | some f => Reads decode f pipe rest
  | none => rest = pipe

structure ByteSystem where
  world : World
  client : ConnId → Client
  toBroker : ConnId → Bytes
  toClient : ConnId → Bytes

def ByteSystem.start (procs : Processes) : ByteSystem where
  world := World.init
  client := fun k => Client.new (procs.hello k) (procs.handlers k)
  toBroker := fun _ => []
  toClient := fun _ => []

inductive ByteStep (env : Env) (debug : BusFrame → String)
    (decode : Bytes → Except String BusFrame) : ByteSystem → SystemAct → ByteSystem → Prop where
  | broker {b : ByteSystem} {a : Act} {w : World} {up : ConnId → Bytes}
      (step : Step env b.world a w) (torn : Partial (.broker a))
      (taken : ∀ k, Taken decode (ofConn k (brokerReads a)) (b.toBroker k) (up k)) :
      ByteStep env debug decode b (.broker a) ⟨w, b.client, up, fun k => b.toClient k ++
        emitted env.toVecNamed (ofConn k (brokerWrites a)) (cutOn k (brokerCuts a))⟩
  | client {b : ByteSystem} {j : ConnId} {a : ClientAct} {c : Client} {down : ConnId → Bytes}
      (step : ClientStep env.toVecNamed debug (b.client j) a c) (torn : Partial (.client j a))
      (taken : ∀ k, Taken decode (ofConn k (on j (clientReads a))) (b.toClient k)
        (down k)) :
      ByteStep env debug decode b (.client j a)
        ⟨b.world, Function.update b.client j c, fun k => b.toBroker k ++
          emitted env.toVecNamed (ofConn k (on j (clientWrites a)))
            (cutOn k (cuts (.client j a))), down⟩

variable {env : Env} {debug : BusFrame → String}
  {decode : Bytes → Except String BusFrame} {procs : Processes} {encoder : Encoder}
  {s s' : System} {w w' : World} {a : Act} {acts : List SystemAct} {k : ConnId} {f : BusFrame} {frames : List BusFrame}
  {torn torn' pipe rest : Bytes} {whole : Option BusFrame} {cut : Option Bytes}

def carried (encoder : Encoder) (frames : List BusFrame) (torn : Bytes) : Bytes :=
  frames.flatMap (frameBytes encoder) ++ torn

def bytesOf (encoder : Encoder) (s : System) : ByteSystem where
  world := s.world
  client := s.client
  toBroker := fun k => carried encoder (s.toBroker k) (s.client k).out.torn
  toClient := fun k => carried encoder (s.toClient k) (s.world.out k).torn

inductive Emits : Option BusFrame → Option Bytes → Bytes → Bytes → Prop where
  | nothing (torn : Bytes) : Emits none none torn torn
  | frame (f : BusFrame) : Emits (some f) none [] []
  | part (cut : Bytes) : Emits none (some cut) [] cut

theorem emitted_carried (emits : Emits whole cut torn torn') (frames : List BusFrame) :
    carried encoder (frames ++ whole.toList) torn' =
      carried encoder frames torn ++ emitted encoder whole cut := by
  cases emits with
  | nothing => simp [carried, emitted]
  | frame f => simp [carried, emitted, List.flatMap_append]
  | part cut => simp [carried, emitted]

structure Legible (encoder : Encoder) (f : BusFrame) : Prop where
  fits : Fits encoder f
  exact : received f = f

theorem bytewise_content (bytes : Bytes) :
    (⟨bytewise bytes, earlyEof⟩ : Reader).content = bytes :=
  joined_bytewise bytes

theorem reads_whole (lossless : Lossless encoder decode) (legible : Legible encoder f) :
    Reads decode f (carried encoder (f :: frames) torn) (carried encoder frames torn) := by
  have here : carried encoder (f :: frames) torn =
      frameBytes encoder f ++ carried encoder frames torn := by
    simp [carried]
  obtain ⟨left, read, found, _⟩ := read_written
    (r := ⟨bytewise (carried encoder (f :: frames) torn), earlyEof⟩) legible.fits
    (fun _ encoded => lossless_reads lossless legible.fits encoded)
    ((bytewise_content _).trans here)
  rw [legible.exact] at read
  exact ⟨_, left, bytewise_content _, read, found⟩

theorem short_unread (short : Short torn) :
    ¬ Reads decode f torn rest := by
  rintro ⟨r, left, here, read, _⟩
  unfold readFrameOpt at read
  split at read
  · split at read <;> cases read
  · rename_i lenBuf middle header
    obtain ⟨parts, size⟩ := readExact_found header
    simp only at read
    split at read
    · cases read
    · split at read
      · cases read
      · rename_i payload after body
        obtain ⟨parts', size'⟩ := readExact_found body
        rw [here, parts'] at parts
        have front : torn.take 4 = lenBuf := by rw [parts, List.take_left' size]
        have long : 4 + (fromBeBytes lenBuf).toNat ≤ torn.length := by
          rw [parts, List.length_append, List.length_append, size, size']
          omega
        rcases short with few | few
        · omega
        · rw [front] at few
          omega

/-- What is read off a stream that holds some frames is the first of them. -/
theorem reads_first (lossless : Lossless encoder decode) (legible : ∀ g ∈ frames, Legible encoder g)
    (short : Short torn) (read : Reads decode f (carried encoder frames torn) rest) :
    ∃ later, frames = f :: later ∧ rest = carried encoder later torn := by
  cases frames with
  | nil => exact absurd read (short_unread short)
  | cons g later =>
    obtain ⟨r, left, here, found, same⟩ := read
    have first := legible g List.mem_cons_self
    have parts : r.content = frameBytes encoder g ++ carried encoder later torn := by
      rw [here]
      simp [carried]
    obtain ⟨left', read', after, _⟩ := read_written first.fits
      (fun _ encoded => lossless_reads lossless first.fits encoded) parts
    rw [first.exact, found] at read'
    obtain ⟨value, readers⟩ := Prod.mk.inj read'
    cases value
    subst readers
    exact ⟨later, rfl, by rw [← same, after]⟩

def halted : Phase → Bool
  | .refused | .live _ .rollback => true
  | _ => false

/-- What was torn was the last thing that the stream got. -/
def Final (o : Outbound) (halt : Prop) : Prop :=
  o.torn = [] ∨ o.writer = .ended ∨ (o.writer = .unspawned ∧ halt)

theorem writer_final {o o' : Outbound} {x : WriterAct} {halt : Prop}
    (one : WriterStep encoder o x o') (final : Final o halt) : Final o' halt := by
  have busy : o.writer ≠ .unspawned := writer_spawned one
  cases one with
  | recv idle | wrote idle =>
    rcases final with none | ended | ⟨fresh, _⟩
    · exact Or.inl none
    · rw [idle] at ended
      cases ended
    · exact absurd fresh busy
  | rejected | broke | cancelledIdle | cancelledBusy => exact Or.inr (Or.inl rfl)

theorem final_kept {out : ConnId → Outbound} {j : ConnId} {o : Outbound} {halt halt' : Prop}
    (final : Final (out k) halt) (torn : o.torn = (out j).torn)
    (writer : o.writer = (out j).writer) (still : halt → halt') :
    Final (Function.update out j o k) halt' := by
  have same : (Function.update out j o k).torn = (out k).torn ∧
      (Function.update out j o k).writer = (out k).writer := by
    by_cases eq : k = j
    · subst eq
      rw [Function.update_self]
      exact ⟨torn, writer⟩
    · rw [Function.update_of_ne eq]
      exact ⟨rfl, rfl⟩
  unfold Final
  rw [same.1, same.2]
  exact final.imp_right (Or.imp_right (And.imp_right still))

theorem broker_final_step (k : ConnId) : Stable (Step env) World.init fun w =>
    Final (w.out k) (halted (w.phase k) = true) := by
  intro w a w' reach h final
  have passes : ∀ {j : ConnId} {p q : Phase}, w.phase j = q → halted q = false →
      halted (w.phase k) = true → halted (Function.update w.phase j p k) = true := by
    intro j p q here going halt
    refine moved_at here (P := fun p => halted p = true) (fun _ none => ?_) halt
    rw [going] at none
    cases none
  have moved : ∀ {j : ConnId} {p q : Phase}, w.phase j = q → halted q = false →
      Final (w.out k) (halted (Function.update w.phase j p k) = true) := by
    intro j p q here going
    exact final.imp_right (Or.imp_right (And.imp_right (passes here going)))
  have ends : ∀ {j : ConnId} {o : Outbound} {p q : Phase}, w.phase j = q → q.rank ≤ 6 →
      o.writer = (w.out j).writer → halted p = true → halted q = false →
      Final (Function.update w.out j o k) (halted (Function.update w.phase j p k) = true) := by
    intro j o p q here early same halt going
    by_cases eq : k = j
    · subst eq
      rw [Function.update_self, Function.update_self]
      refine Or.inr (Or.inr ⟨?_, halt⟩)
      rw [same]
      exact unspawned reach (by rwa [here])
    · rw [Function.update_of_ne eq, Function.update_of_ne eq]
      exact final
  cases h with
  | accept here | noHello here | hello here | consume here | clientId here | generate here
  | publish here | attach here | probe here | fanout here | target here | undelivered here
  | fanned here | hangup here | detach here | check here | forget here | removeIf here =>
    exact moved here rfl
  | reject here => exact final_kept final rfl rfl (passes here rfl)
  | rejectBroken here | ackBroken here =>
    exact ends here (by simp [Phase.rank, Stage.rank]) rfl rfl rfl
  | @ack j s f here =>
    by_cases eq : k = j
    · subst eq
      have fresh := unspawned (k := k) reach (by simp [here, Phase.rank, Stage.rank])
      rcases final with none | ended | ⟨_, halt⟩
      · exact Or.inl (by simpa [World.setPhase, World.setOut, Outbound.spawn, Outbound.direct])
      · rw [fresh] at ended
        cases ended
      · rw [here] at halt
        cases halt
    · simp only [World.setPhase, World.setOut, Function.update_of_ne eq]
      exact final
  | @rollback j s here =>
    by_cases eq : k = j
    · subst eq
      exact Or.inr (Or.inl (by simp [World.setPhase, World.setOut, Outbound.stop]))
    · simp only [World.setPhase, World.setOut, World.withBroker, Function.update_of_ne eq]
      exact final
  | deliver here | abort here => exact final_kept final rfl rfl (passes here rfl)
  | send | answer | shutdownSend => exact final_kept final rfl rfl id
  | @writer j x o one =>
    by_cases eq : k = j
    · subst eq
      simp only [World.setOut, Function.update_self]
      exact writer_final one final
    · simp only [World.setOut, Function.update_of_ne eq]
      exact final
  | _ => exact final

theorem broker_final (reach : BrokerReachable env w) (k : ConnId) :
    Final (w.out k) (halted (w.phase k) = true) :=
  reachable_invariant (p := fun w => Final (w.out k) (halted (w.phase k) = true)) (Or.inl rfl)
    (broker_final_step k) reach

def quit : Runner → Bool
  | .failed _ => true
  | _ => false

variable {hello : HelloRequest} {handlers : String → Option HandlerId} {c c' : Client}
  {b : ClientAct} {o o' : Outbound} {x : WriterAct}

theorem client_final_step : Stable (ClientStep encoder debug) (Client.new hello handlers) fun c =>
    Final c.out (quit c.runner = true) := by
  intro c b c' reach h final
  have fresh : c.runner.rank ≤ 2 → c.out.writer = .unspawned := client_unspawned reach
  have moved : ∀ {p q : Runner}, c.runner = q → quit q = false →
      Final c.out (quit p = true) := by
    intro p q here going
    refine final.imp_right (Or.imp_right (And.imp_right fun halt => ?_))
    rw [here, going] at halt
    cases halt
  cases h with
  | greet here => exact moved here rfl
  | greetBroken here =>
    exact Or.inr (Or.inr ⟨fresh (by simp [here, Runner.rank]), rfl⟩)
  | acked here | refused here | unread here | hangup here | stop here | finish here =>
    exact moved here rfl
  | run here =>
    rcases final with none | ended | ⟨_, halt⟩
    · exact Or.inl none
    · rw [fresh (by simp [here, Runner.rank])] at ended
      cases ended
    · rw [here] at halt
      cases halt
  | writer one => exact writer_final one final
  | _ => exact final

theorem client_final (reach : ClientReachable encoder debug hello handlers c) :
    Final c.out (quit c.runner = true) :=
  reachable_invariant (p := fun c => Final c.out (quit c.runner = true)) (Or.inl rfl)
    client_final_step reach

/-- What the writer task writes is the first thing on a stream that is not torn. -/
theorem writer_untorn {halt : Prop} (one : WriterStep encoder o x o') (final : Final o halt) :
    o.torn = [] := by
  have spawned : o.writer ≠ .unspawned := writer_spawned one
  rcases final with none | ended | ⟨fresh, _⟩
  · exact none
  · cases one <;> simp_all
  · exact absurd fresh spawned

theorem start_untorn {halt : Prop} (final : Final o halt) (fresh : o.writer = .unspawned)
    (going : ¬ halt) : o.torn = [] := by
  rcases final with none | ended | ⟨_, halted⟩
  · exact none
  · rw [fresh] at ended
    cases ended
  · exact absurd halted going

def writerWhole : WriterAct → Option BusFrame
  | .wrote f => some f
  | _ => none

def writerCut : WriterAct → Option Bytes
  | .broke _ cut | .cancelled cut => some cut
  | _ => none

theorem writer_emits (one : WriterStep encoder o x o') (untorn : o.torn = []) :
    Emits (writerWhole x) (writerCut x) o.torn o'.torn := by
  cases one with
  | recv | rejected => exact .nothing _
  | wrote =>
    simp only [Outbound.direct, untorn]
    exact .frame _
  | broke | cancelledBusy =>
    rw [untorn]
    exact .part _
  | cancelledIdle =>
    simp only [Outbound.stop, untorn]
    exact .part _

theorem client_emits (reach : ClientReachable encoder debug hello handlers c)
    (h : ClientStep encoder debug c b c') :
    Emits (clientWrites b) (clientCuts b) c.out.torn c'.out.torn := by
  have final := client_final reach
  have fresh : c.runner.rank ≤ 2 → c.out.writer = .unspawned := client_unspawned reach
  have untorn : c.runner = .unconnected → c.out.torn = [] := by
    intro here
    exact start_untorn final (fresh (by simp [here, Runner.rank])) (by simp [here, quit])
  cases h with
  | greet here =>
    simp only [Client.setRunner, Client.setOut, Outbound.direct, untorn here]
    exact .frame _
  | greetBroken here =>
    rw [untorn here]
    exact .part _
  | @writer x o one =>
    have first := writer_emits one (writer_untorn one final)
    cases x <;> exact first
  | _ => exact .nothing _

theorem broker_emits (reach : BrokerReachable env w) (h : Step env w a w') (k : ConnId) :
    Emits (ofConn k (brokerWrites a)) (cutOn k (brokerCuts a)) (w.out k).torn (w'.out k).torn := by
  have final := broker_final reach
  have start : ∀ {j : ConnId} {p : Phase}, w.phase j = p → p.rank ≤ 6 → halted p = false →
      (w.out j).torn = [] := by
    intro j p here early going
    refine start_untorn (final j) (unspawned reach (by rwa [here])) ?_
    rw [here, going]
    exact Bool.false_ne_true
  have elsewhere : ∀ {j : ConnId} {o : Outbound} {whole : Option BusFrame} {cut : Option Bytes},
      (j = k → Emits whole cut (w.out j).torn o.torn) →
      Emits (if j = k then whole else none) (if j = k then cut else none) (w.out k).torn
        (Function.update w.out j o k).torn := by
    intro j o whole cut emits
    by_cases eq : j = k
    · subst eq
      rw [if_pos rfl, if_pos rfl, Function.update_self]
      exact emits rfl
    · rw [if_neg eq, if_neg eq, Function.update_of_ne (Ne.symm eq)]
      exact .nothing _
  have quiet : ∀ {j : ConnId} {o : Outbound}, o.torn = (w.out j).torn →
      Emits none none (w.out k).torn (Function.update w.out j o k).torn := by
    intro j o same
    have one := @elsewhere j o none none (fun _ => by rw [same]; exact .nothing _)
    rwa [ite_self, ite_self] at one
  cases h with
  | @reject j e here =>
    have one := @elsewhere j ((w.out j).direct (rejection e)) (some (rejection e)) none fun _ => by
      rw [Outbound.direct, start here (by simp [Phase.rank]) rfl]
      exact .frame _
    rwa [ite_self] at one
  | @ack j s f here =>
    have one := @elsewhere j ((w.out j).direct f).spawn (some f) none fun _ => by
      rw [Outbound.spawn, Outbound.direct, start here (by simp [Phase.rank, Stage.rank]) rfl]
      exact .frame _
    rwa [ite_self] at one
  | @rejectBroken j e cut here | @ackBroken j s cut here =>
    have one := @elsewhere j ((w.out j).tear cut) none (some cut) fun _ => by
      rw [start here (by simp [Phase.rank, Stage.rank]) rfl]
      exact .part _
    rwa [ite_self] at one
  | rollback | abort | deliver | send | answer | shutdownSend => exact quiet rfl
  | @writer j x o one =>
    have first := @elsewhere j o (writerWhole x) (writerCut x) fun _ =>
      writer_emits one (writer_untorn one (final j))
    cases x <;> simpa [writerWhole, writerCut, brokerWrites, brokerCuts, ofConn, cutOn, World.setOut]
      using first
  | _ => exact .nothing _

theorem written_pushed {channel : List ChannelAct}
    (run : Run (ChannelStep encoder) Outbound.fresh channel o)
    (one : WriterStep encoder o (.wrote f) o') : f ∈ pushed channel ∧ Fits encoder f := by
  cases one with
  | wrote busy fits =>
    have all := (ordered run).rest (by simp [Outbound.IsOpen, busy])
    have inside : f ∈ held o := by simp [held, busy]
    exact ⟨by rw [← all]; exact List.mem_append_right _ inside, fits_iff_written.mpr ⟨_, fits⟩⟩

theorem client_legible {steps : List ClientAct} (run : ClientRun encoder debug hello handlers steps c)
    (h : ClientStep encoder debug c b c') (whole : clientWrites b = some f) :
    Legible encoder f := by
  cases h with
  | greet here fits =>
    cases whole
    exact ⟨fits, rfl⟩
  | @writer x o one =>
    cases x with
    | wrote g =>
      cases whole
      obtain ⟨mem, fits⟩ := written_pushed (client_channel_run run) one
      rw [client_pushed] at mem
      obtain ⟨b, _, sent⟩ := List.mem_filterMap.mp mem
      refine ⟨fits, ?_⟩
      cases b <;> cases sent <;> rfl
    | _ => cases whole
  | _ => cases whole

def Exact (env : Env) : Prop :=
  Duration.fromMillis env.config.heartbeatInterval.asMillis = env.config.heartbeatInterval

theorem broker_legible {acts : List Act} (millis : Exact env) (run : BrokerRun env acts w)
    (h : Step env w a w') (whole : brokerWrites a = some (k, f)) :
    Legible env.toVecNamed f := by
  cases h with
  | reject here fits =>
    cases whole
    exact ⟨fits, rfl⟩
  | @ack j s g here frame fits =>
    cases whole
    subst frame
    exact ⟨fits, congrArg (fun interval => BusFrame.helloAck ⟨s.clientId, interval⟩) millis⟩
  | @writer j x o one =>
    cases x with
    | wrote g =>
      cases whole
      obtain ⟨mem, fits⟩ := written_pushed (broker_channel_run run k) one
      rw [broker_pushed] at mem
      obtain ⟨a, _, sent⟩ := List.mem_filterMap.mp mem
      refine ⟨fits, ?_⟩
      have queued := ofConn_eq.mp sent
      cases a <;> cases queued <;> rfl
    | _ => cases whole
  | _ => cases whole

/-- The system of frames, where what is torn is not whole. -/
abbrev FrameStep (env : Env) (debug : BusFrame → String) :=
  Guarded (SystemStep env debug) fun _ => Partial

structure Parted (env : Env) (s : System) (k : ConnId) : Prop where
  up : ∀ f ∈ s.toBroker k, Legible env.toVecNamed f
  down : ∀ f ∈ s.toClient k, Legible env.toVecNamed f
  client : Short (s.client k).out.torn
  broker : Short (s.world.out k).torn

theorem mem_of_pull {pipe : ConnId → List BusFrame} {io : Option (ConnId × BusFrame)}
    (mem : f ∈ pull pipe io k) : f ∈ pipe k := by
  cases io with
  | none => exact mem
  | some p =>
    obtain ⟨j, g⟩ := p
    by_cases eq : k = j
    · subst eq
      rw [pull, Function.update_self] at mem
      exact List.mem_of_mem_tail mem
    · rwa [pull, Function.update_of_ne eq] at mem

theorem short_emitted (emits : Emits whole cut torn torn') (short : Short torn)
    (part : ∀ piece, cut = some piece → Short piece) : Short torn' := by
  cases emits with
  | nothing => exact short
  | frame => exact short
  | part => exact part _ rfl

theorem cutOn_eq {io : Option (ConnId × Bytes)} :
    cutOn k io = some torn ↔ io = some (k, torn) := by
  cases io with
  | none => simp [cutOn]
  | some p =>
    obtain ⟨j, g⟩ := p
    by_cases eq : j = k
    · subst eq
      simp [cutOn]
    · simp [cutOn, eq]

theorem frame_run {start : System} (run : Run (FrameStep env debug) start acts s) :
    Run (SystemStep env debug) start acts s :=
  guarded_run run

theorem parted (millis : Exact env) (run : Run (FrameStep env debug) (System.start procs) acts s)
    (k : ConnId) : Parted env s k := by
  refine run_history (p := fun _ s => Parted env s k) ⟨?_, ?_, Or.inl ?_, Or.inl ?_⟩ ?_ run
  · intro f mem
    cases mem
  · intro f mem
    cases mem
  · exact Nat.zero_lt_succ 3
  · exact Nat.zero_lt_succ 3
  · intro acts s x s' before last known
    obtain ⟨up, down, client, broker⟩ := known
    have run := frame_run before
    obtain ⟨step, torn⟩ := last
    cases step with
    | @broker a w step offered =>
      refine ⟨fun f mem => up f (mem_of_pull mem), ?_, client, ?_⟩
      · intro f mem
        change f ∈ put s.toClient (brokerWrites a) k at mem
        rw [put_content] at mem
        rcases List.mem_append.mp mem with old | new
        · exact down f old
        · exact broker_legible millis (broker_run run) step
            (ofConn_eq.mp (Option.mem_toList.mp new))
      · exact short_emitted (broker_emits ⟨_, broker_run run⟩ step k) broker fun piece cut =>
          torn k piece (cutOn_eq.mp cut)
    | @client j b c step offered =>
      refine ⟨?_, fun f mem => down f (mem_of_pull mem), ?_, broker⟩
      · intro f mem
        change f ∈ put s.toBroker (on j (clientWrites b)) k at mem
        rw [put_content] at mem
        rcases List.mem_append.mp mem with old | new
        · exact up f old
        · obtain ⟨_, whole⟩ := on_eq.mp (ofConn_eq.mp (Option.mem_toList.mp new))
          exact client_legible (client_run run j) step whole
      · by_cases eq : k = j
        · subst eq
          simp only [System.clientMoved, Function.update_self]
          refine short_emitted (client_emits ⟨_, client_run run k⟩ step) client ?_
          intro piece cut
          exact torn k piece (by simp [cuts, cut])
        · simp only [System.clientMoved, Function.update_of_ne eq]
          exact client

theorem taken_carried (lossless : Lossless encoder decode) {io : Option BusFrame}
    {later : List BusFrame} (legible : ∀ g ∈ frames, Legible encoder g)
    (parts : io.toList ++ later = frames) :
    Taken decode io (carried encoder frames torn) (carried encoder later torn) := by
  subst parts
  cases io with
  | none => rfl
  | some f => exact reads_whole lossless (legible f (by simp))

theorem carried_taken (lossless : Lossless encoder decode) {io : Option BusFrame}
    (legible : ∀ g ∈ frames, Legible encoder g) (short : Short torn)
    (taken : Taken decode io (carried encoder frames torn) rest) :
    ∃ later, io.toList ++ later = frames ∧ rest = carried encoder later torn := by
  cases io with
  | none => exact ⟨frames, rfl, taken⟩
  | some f =>
    obtain ⟨later, rfl, same⟩ := reads_first lossless legible short taken
    exact ⟨later, rfl, same⟩

variable {streams : ConnId → List BusFrame} {io : Option (ConnId × BusFrame)}
  {ends : ConnId → Bytes}

theorem pulled_taken (lossless : Lossless encoder decode)
    (legible : ∀ k, ∀ g ∈ streams k, Legible encoder g) (offered : Offers streams io)
    (k : ConnId) : Taken decode (ofConn k io) (carried encoder (streams k) (ends k))
      (carried encoder (pull streams io k) (ends k)) :=
  taken_carried lossless (legible k) (pull_content offered k)

theorem taken_pulled (lossless : Lossless encoder decode) {left : ConnId → Bytes}
    (legible : ∀ k, ∀ g ∈ streams k, Legible encoder g) (short : ∀ k, Short (ends k))
    (taken : ∀ k, Taken decode (ofConn k io)
      (carried encoder (streams k) (ends k)) (left k)) :
    Offers streams io ∧ left = fun k => carried encoder (pull streams io k) (ends k) := by
  have offered : Offers streams io := by
    intro k f same
    obtain ⟨later, parts, _⟩ := carried_taken lossless (legible k) (short k) (taken k)
    rw [ofConn_eq.mpr same] at parts
    rw [← parts]
    rfl
  refine ⟨offered, funext fun k => ?_⟩
  obtain ⟨later, parts, same⟩ := carried_taken lossless (legible k) (short k) (taken k)
  rw [← pull_content offered k] at parts
  rw [same, List.append_cancel_left parts]

theorem broker_bytes {up : ConnId → Bytes} (reach : BrokerReachable env s.world)
    (step : Step env s.world a w)
    (same : up = fun k => carried env.toVecNamed (pull s.toBroker (brokerReads a) k)
      (s.client k).out.torn) :
    (⟨w, s.client, up, fun k => carried env.toVecNamed (s.toClient k) (s.world.out k).torn ++
        emitted env.toVecNamed (ofConn k (brokerWrites a)) (cutOn k (brokerCuts a))⟩ :
      ByteSystem) = bytesOf env.toVecNamed (s.brokerMoved a w) := by
  subst same
  unfold bytesOf System.brokerMoved
  congr 1
  funext k
  simp only [put_content]
  exact (emitted_carried (broker_emits reach step k) _).symm

theorem client_bytes {j : ConnId} {down : ConnId → Bytes}
    (reach : ClientReachable env.toVecNamed debug (procs.hello j) (procs.handlers j) (s.client j))
    (step : ClientStep env.toVecNamed debug (s.client j) b c)
    (same : down = fun k => carried env.toVecNamed (pull s.toClient (on j (clientReads b)) k)
      (s.world.out k).torn) :
    (⟨s.world, Function.update s.client j c, fun k =>
        carried env.toVecNamed (s.toBroker k) (s.client k).out.torn ++
          emitted env.toVecNamed (ofConn k (on j (clientWrites b)))
            (cutOn k (cuts (.client j b))), down⟩ :
      ByteSystem) = bytesOf env.toVecNamed (s.clientMoved j b c) := by
  subst same
  unfold bytesOf System.clientMoved
  congr 1
  funext k
  simp only [put_content]
  refine (emitted_carried ?_ _).symm
  by_cases eq : k = j
  · subst eq
    have first := client_emits reach step
    rw [Function.update_self, ofConn_on, if_pos rfl]
    cases cut : clientCuts b with
    | none => simpa [cut, cuts, cutOn] using first
    | some piece => simpa [cut, cuts, cutOn] using first
  · rw [Function.update_of_ne eq, ofConn_on, if_neg (Ne.symm eq)]
    have quiet : cutOn k (cuts (.client j b)) = none := by
      cases cut : clientCuts b with
      | none => simp [cut, cuts, cutOn]
      | some piece => simp [cut, cuts, cutOn, Ne.symm eq]
    rw [quiet]
    exact .nothing _

/-- The system of bytes does what the system of frames does: the same steps in the same orders,
    from and to the same states, with the bytes of the frames on the streams. -/
theorem byte_runs_iff (lossless : Lossless env.toVecNamed decode) (millis : Exact env)
    {y : ByteSystem} :
    Run (ByteStep env debug decode) (ByteSystem.start procs) acts y ↔
      ∃ s, Run (FrameStep env debug) (System.start procs) acts s ∧
        y = bytesOf env.toVecNamed s := by
  have facts : ∀ {v}, Reachable (FrameStep env debug) (System.start procs) v →
      (∀ k, Parted env v k) ∧ BrokerReachable env v.world ∧ ∀ k, ClientReachable env.toVecNamed debug
        (procs.hello k) (procs.handlers k) (v.client k) := by
    rintro v ⟨acts, run⟩
    have plain := frame_run run
    exact ⟨parted millis run, ⟨_, broker_run plain⟩, fun k => ⟨_, client_run plain k⟩⟩
  refine run_image_iff (s := System.start procs) (bytesOf env.toVecNamed) ?_ ?_
  · intro v x v' reach last
    obtain ⟨parted, broker, client⟩ := facts reach
    obtain ⟨step, torn⟩ := last
    cases step with
    | @broker a w step offered =>
      rw [← broker_bytes broker step rfl]
      exact .broker step torn (pulled_taken lossless (fun k => (parted k).up) offered)
    | @client j b c step offered =>
      rw [← client_bytes (client j) step rfl]
      exact .client step torn (pulled_taken lossless (fun k => (parted k).down) offered)
  · intro v x y reach last
    obtain ⟨parted, broker, client⟩ := facts reach
    cases last with
    | @broker a w up step torn taken =>
      obtain ⟨offered, same⟩ := taken_pulled lossless (fun k => (parted k).up)
        (fun k => (parted k).client) taken
      exact ⟨_, ⟨.broker step offered, torn⟩, broker_bytes broker step same⟩
    | @client j b c down step torn taken =>
      obtain ⟨offered, same⟩ := taken_pulled lossless (fun k => (parted k).down)
        (fun k => (parted k).broker) taken
      exact ⟨_, ⟨.client step offered, torn⟩, client_bytes (client j) step same⟩

theorem ping_bytes : ∃ y, Run (ByteStep standardEnv quiet (unpackFrame fun _ => "decode"))
    (ByteSystem.start pingProcs) pingActs y ∧ (y.client 0).invokePhase 0 = .done (.ok [7]) := by
  obtain ⟨w, c, run, done, _⟩ := ping_run
  have whole : ∀ x ∈ pingActs, cuts x = none := by decide
  have frames : Run (FrameStep standardEnv quiet) (System.start pingProcs) pingActs _ :=
    run_guarded run fun x mem _ k cut torn => by
      rw [whole x mem] at torn
      cases torn
  have millis : Exact standardEnv := by
    unfold Exact
    decide
  refine ⟨_, (byte_runs_iff unpackFrame_lossless millis).mpr ⟨_, frames, rfl⟩, ?_⟩
  simpa [bytesOf, System.pair] using done

end TokimoBytes

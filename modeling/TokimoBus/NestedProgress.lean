import TokimoBus.NestedStreams
import TokimoBus.NestedHandlers
import TokimoBus.Deliveries
import TokimoBus.Enabled

/-!
Where nested calls stand when nothing moves. Nothing is under way on the streams, each task of the
broker for an app is over or waits for a Response, each task of an app is over or runs its handler,
and each handler waits for invokes that wait for a Response.
-/
namespace TokimoNested
open TokimoFrame TokimoOutbound TokimoBroker TokimoSession TokimoClient TokimoSystem TokimoChannel
open TokimoConfinement TokimoEnabled LabelledRuns BoundedStream
variable {env : Env} {debug : BusFrame → String} {programs : Programs} {cap : Capacity}
  {procs : Processes} {s s' : Nested} {u v : System} {xs : List SystemAct} {k : ConnId} {t : TaskId}
  {i : InvokeId} {c : CallId} {inv : Invoke}

/-- A reader, a writer, a task of the broker for an app, or a handler can move. -/
def CanMove (env : Env) (debug : BusFrame → String) (programs : Programs) (cap : Capacity)
    (s : Nested) : Prop :=
  ∃ a s', NestedStep env debug programs cap s a s' ∧ Moves s a

theorem broker_can {a : Act} {w : World} (one : Step env s.system.world a w)
    (undisturbed : Undisturbed (.broker a)) (moves : Moves s (.system (.broker a)))
    (reads : ∀ k f, brokerReads a = some (k, f) →
      (s.system.toBroker k).head? = some f ∧ Whole (size env) (s.up k) f)
    (writes : ∀ k f, brokerWrites a = some (k, f) →
      CanFinish (cap.down k) (size env) (s.down k) f) : CanMove env debug programs cap s := by
  have offered : Offers s.system.toBroker (brokerReads a) := fun k f same => (reads k f same).1
  have carried : Carried env cap s (.broker a) := by
    constructor
    · intro k f same
      cases same
    · exact writes
    · exact fun k f same => (reads k f same).2
    · intro k f same
      cases same
  exact ⟨_, _, NestedStep.system (.broker one offered) undisturbed trivial carried, moves⟩

theorem client_can {b : ClientAct} {c : Client}
    (one : ClientStep env.toVecNamed debug (s.system.client k) b c)
    (undisturbed : Undisturbed (.client k b)) (free : Free s (.client k b))
    (moves : runsOn b = true)
    (reads : ∀ f, clientReads b = some f →
      (s.system.toClient k).head? = some f ∧ Whole (size env) (s.down k) f)
    (writes : ∀ f, clientWrites b = some f → CanFinish (cap.up k) (size env) (s.up k) f) :
    CanMove env debug programs cap s := by
  have offered : Offers s.system.toClient (on k (clientReads b)) := by
    intro j f same
    obtain ⟨rfl, read⟩ := on_eq.mp same
    exact (reads f read).1
  have carried : Carried env cap s (.client k b) := by
    constructor
    · intro j f same
      obtain ⟨rfl, written⟩ := on_eq.mp same
      exact writes f written
    · intro j f same
      cases same
    · intro j f same
      cases same
    · intro j f same
      obtain ⟨rfl, read⟩ := on_eq.mp same
      exact (reads f read).2
  exact ⟨_, _, NestedStep.system (.client one offered) undisturbed free carried, moves⟩

theorem loop_quiet {a : Act} (loop : readsFor a = some k) :
    brokerWrites a = none ∧ Undisturbed (.broker a) := by
  cases a <;> simp [readsFor, brokerWrites, Undisturbed] at loop ⊢

theorem task_quiet {a : Act} (task : taskOf a = some c) :
    brokerReads a = none ∧ brokerWrites a = none ∧ Undisturbed (.broker a) := by
  cases a <;> simp [taskOf, brokerReads, brokerWrites, Undisturbed] at task ⊢

theorem polls_quiet {b : ClientAct} (polled : polls b = some i) : clientReads b = none ∧
    clientWrites b = none ∧ Undisturbed (.client k b) ∧ runsOn b = true ∧
      (Polled s k i → Free s (.client k b)) := by
  cases b <;> simp [polls, clientReads, clientWrites, Undisturbed, runsOn, Free] at polled ⊢
  all_goals
    subst polled
    exact id

theorem read_quiet {b : ClientAct} {c c' : Client} {f : BusFrame} {encoder : Encoder}
    (one : ClientStep encoder debug c b c') (runner : c.runner = .reading)
    (read : clientReads b = some f) : clientWrites b = none ∧ Undisturbed (.client k b) ∧
      runsOn b = true ∧ Free s (.client k b) := by
  cases one with
  | acked here | refused here =>
    rw [runner] at here
    cases here
  | ping | pingClosed | shutdownFrame | invoke | response | ignore =>
    exact ⟨rfl, trivial, rfl, trivial⟩
  | _ => cases read

theorem stuck_reading (stuck : ¬ CanMove env debug programs cap s) (serving : Serving s.system k) :
    ∃ ses, s.system.world.phase k = .live ses .read := by
  rcases @loop_goes_on env _ k serving.phase with reading | ⟨a, w, one, unread, loop⟩
  · exact reading
  · obtain ⟨unwritten, undisturbed⟩ := loop_quiet loop
    refine absurd (broker_can one undisturbed (Or.inl (Or.inl (by simp [loop]))) ?_ ?_) stuck
    · simp [unread]
    · simp [unwritten]

theorem writing_hand {o : Outbound} {f : BusFrame} (hand : writing o = some f) :
    o.writer = .writing f := by
  unfold writing at hand
  split at hand <;> simp_all

theorem nothing_held {o : Outbound} (works : Works o) (idle : writing o = none)
    (blocked : ∀ f rest, o.writer = .idle → o.queue ≠ f :: rest) : o.IsOpen ∧ held o = [] := by
  refine ⟨works_open works, ?_⟩
  rcases works with ready | ⟨f, busy⟩
  · cases queue : o.queue with
    | nil => simp [held, ready, queue]
    | cons f rest => exact absurd queue (blocked f rest ready)
  · simp [writing, busy] at idle

theorem stuck_up (stuck : ¬ CanMove env debug programs cap s) (serving : Serving s.system k)
    (flowing : Flowing env s k) (room : 0 < cap.up k)
    (fresh : ∃ c, s.system.world.callPhase c = .unused) :
    Spent (s.system.client k).out (s.system.toBroker k) := by
  obtain ⟨ses, reading⟩ := stuck_reading stuck serving
  obtain ⟨c, new⟩ := fresh
  have still : ¬ (writing (s.system.client k).out ≠ none ∨ s.system.toBroker k ≠ [] ∨
      0 < (s.up k).buffered) := by
    intro busy
    rcases flows flowing.up room busy with ⟨f, hand, fill | finish⟩ | drain | ⟨f, head, whole⟩
    · exact stuck ⟨_, _, NestedStep.fillUp (writing_hand hand) fill, trivial⟩
    · have hand := writing_hand hand
      obtain ⟨bytes, fits⟩ := fits_iff_written.mp (flowing.upFits f (by simp [held, hand]))
      refine stuck (client_can (.writer (.wrote hand fits)) trivial trivial rfl ?_ ?_)
      · simp [clientReads]
      · intro g same
        cases same
        exact finish
    · exact stuck ⟨_, _, NestedStep.drainUp reading drain, trivial⟩
    · obtain ⟨a, w, one, read, loop⟩ := @loop_takes env _ _ _ _ reading new f
      obtain ⟨unwritten, undisturbed⟩ := loop_quiet loop
      refine stuck (broker_can one undisturbed (Or.inl (Or.inl (by simp [loop]))) ?_ ?_)
      · intro j g same
        rw [read] at same
        cases same
        exact ⟨head, whole⟩
      · simp [unwritten]
  simp only [not_or, not_not] at still
  obtain ⟨alive, nothing⟩ := nothing_held serving.up still.1 fun f rest ready queue =>
    stuck (client_can (.writer (.recv ready queue)) trivial trivial rfl (by simp [clientReads])
      (by simp [clientWrites]))
  exact ⟨alive, nothing, still.2.1⟩

theorem stuck_down (stuck : ¬ CanMove env debug programs cap s) (serving : Serving s.system k)
    (flowing : Flowing env s k) (room : 0 < cap.down k)
    (fresh : ∃ t, (s.system.client k).task t = .unused) :
    Spent (s.system.world.out k) (s.system.toClient k) := by
  have reading := serving.runner
  obtain ⟨t, new⟩ := fresh
  have still : ¬ (writing (s.system.world.out k) ≠ none ∨ s.system.toClient k ≠ [] ∨
      0 < (s.down k).buffered) := by
    intro busy
    rcases flows flowing.down room busy with ⟨f, hand, fill | finish⟩ | drain | ⟨f, head, whole⟩
    · exact stuck ⟨_, _, NestedStep.fillDown (writing_hand hand) fill, trivial⟩
    · have hand := writing_hand hand
      obtain ⟨bytes, fits⟩ := fits_iff_written.mp (flowing.downFits f (by simp [held, hand]))
      refine stuck (broker_can (.writer (.wrote hand fits)) trivial
        (Or.inl (Or.inr ⟨k, _, rfl⟩)) ?_ ?_)
      · simp [brokerReads]
      · intro j g same
        cases same
        exact finish
    · exact stuck ⟨_, _, NestedStep.drainDown reading drain, trivial⟩
    · obtain ⟨b, c, one, read⟩ := @reader_takes env.toVecNamed debug _ t reading new f
      obtain ⟨unwritten, undisturbed, moves, free⟩ := @read_quiet debug s k b _ _ f _ one reading read
      refine stuck (client_can one undisturbed free moves ?_ ?_)
      · intro g same
        rw [read] at same
        cases same
        exact ⟨head, whole⟩
      · simp [unwritten]
  simp only [not_or, not_not] at still
  obtain ⟨alive, nothing⟩ := nothing_held serving.down still.1 fun f rest ready queue =>
    stuck (broker_can (.writer (.recv ready queue)) trivial (Or.inl (Or.inr ⟨k, _, rfl⟩))
      (by simp [brokerReads]) (by simp [brokerWrites]))
  exact ⟨alive, nothing, still.2.1⟩

theorem stuck_call (stuck : ¬ CanMove env debug programs cap s)
    (reach : BrokerReachable env s.system.world)
    (app : (s.system.world.call c).origin = .app k inv)
    (begun : s.system.world.callPhase c ≠ .unused) :
    s.system.world.callPhase c = .answered ∨ Waits s.system.world c := by
  rcases @call_goes_on env _ c k inv app begun (app_kept reach app) with ended | waits |
    ⟨a, w, one, task, untimed⟩
  · exact Or.inl ended
  · exact Or.inr waits
  · obtain ⟨unread, unwritten, undisturbed⟩ := task_quiet task
    exact absurd (broker_can one undisturbed (Or.inr ⟨c, k, inv, task, app, untimed⟩)
      (by simp [unread]) (by simp [unwritten])) stuck

theorem stuck_task (stuck : ¬ CanMove env debug programs cap s) (k : ConnId) (t : TaskId) :
    (s.system.client k).task t = .unused ∨ (∃ inv h, (s.system.client k).task t = .running inv h) ∨
      (s.system.client k).task t = .finished := by
  rcases @task_goes_on env.toVecNamed debug (s.system.client k) t with new | running | ended |
    ⟨inv, h, c, one⟩ | ⟨b, c, one, ends⟩
  · exact Or.inl new
  · exact Or.inr (Or.inl running)
  · exact Or.inr (Or.inr ended)
  · have offered : Offers s.system.toClient (on k (clientReads (.handle t inv h))) := by
      simp [Offers, on, clientReads]
    exact absurd ⟨_, _, NestedStep.handle (.client one offered), trivial⟩ stuck
  · rcases ends with ⟨inv, rfl⟩ | ⟨r, rfl⟩ | rfl
    · exact absurd (client_can one trivial trivial rfl (by simp [clientReads])
        (by simp [clientWrites])) stuck
    · exact absurd (client_can one trivial trivial rfl (by simp [clientReads])
        (by simp [clientWrites])) stuck
    · exact absurd (client_can one trivial trivial rfl (by simp [clientReads])
        (by simp [clientWrites])) stuck

theorem stuck_invoke (stuck : ¬ CanMove env debug programs cap s) (polled : Polled s k i)
    (active : ((s.system.client k).invokePhase i).active = true) : Awaits (s.system.client k) i := by
  rcases @invoke_goes_on env.toVecNamed debug (s.system.client k) i active with waits |
    ⟨b, c, one, own⟩
  · exact waits
  · obtain ⟨unread, unwritten, undisturbed, moves, free⟩ := @polls_quiet s k i b own
    exact absurd (client_can one undisturbed (free polled) moves (by simp [unread])
      (by simp [unwritten])) stuck

theorem waits_polled (known : Activated xs s) {act : Activation} {n : Slot}
    (here : s.activation k t = some act) (live : n ∈ act.live) (waits : n ∈ act.program.waits) :
    Polled s k (act.id n) := by
  intro t' act' n' there live' same
  obtain ⟨rfl, rfl⟩ := known.own k t t' act act' n n' here there live live' same.symm
  rw [here] at there
  cases there
  exact waits

theorem stuck_handler (stuck : ¬ CanMove env debug programs cap s) (known : Activated xs s)
    (fresh : ∃ i, (s.system.client k).invokePhase i = .unused) {act : Activation}
    (here : s.activation k t = some act) :
    ∃ n ∈ act.live, n ∈ act.program.waits ∧ Awaits (s.system.client k) (act.id n) := by
  have sound := known.sound k t act here
  obtain ⟨inv, h, running⟩ := sound.running
  have silent : ∀ {b : ClientAct}, clientReads b = none →
      Offers s.system.toClient (on k (clientReads b)) := by
    intro b unread
    simp [Offers, on, unread]
  obtain ⟨live, program, id⟩ := act
  cases program with
  | ret result =>
    exact absurd ⟨_, _, NestedStep.ret here (.client (.handled running) (silent rfl)), trivial⟩ stuck
  | invoke n new x next =>
    obtain ⟨i, unused⟩ := fresh
    have owned := TokimoPending.task_owns running rfl
    exact absurd ⟨_, _, NestedStep.invoke here (.client (.begin unused owned) (silent rfl)), trivial⟩
      stuck
  | drop n own next =>
    obtain ⟨used, kept⟩ := sound.begun n own
    have still : midway ((s.system.client k).invokePhase (id n)) = false := by
      cases middle : midway ((s.system.client k).invokePhase (id n)) with
      | false => rfl
      | true => simpa [Program.waits] using sound.polled n own middle
    cases phase : (s.system.client k).invokePhase (id n) with
    | unused => exact absurd phase used
    | cancelled => exact absurd phase kept
    | register | send =>
      rw [phase] at still
      cases still
    | done result => exact absurd ⟨_, _, NestedStep.release here phase, trivial⟩ stuck
    | start =>
      exact absurd ⟨_, _, NestedStep.drop here (.client (.cancelStart phase) (silent rfl)), trivial⟩
        stuck
    | await r =>
      exact absurd ⟨_, _, NestedStep.drop here (.client (.cancelAwait phase) (silent rfl)), trivial⟩
        stuck
  | wait slots some own next =>
    have waiting : ∀ n ∈ slots, ((s.system.client k).invokePhase (id n)).active = true →
        Awaits (s.system.client k) (id n) := by
      intro n mem active
      exact stuck_invoke stuck (waits_polled known here (own mem) mem) active
    have still : ∀ n ∈ slots, midway ((s.system.client k).invokePhase (id n)) = false := by
      intro n mem
      cases phase : (s.system.client k).invokePhase (id n) with
      | register | send =>
        obtain ⟨⟨r, await⟩, _⟩ := waiting n mem (by rw [phase]; rfl)
        rw [phase] at await
        cases await
      | _ => rfl
    obtain ⟨n, mem⟩ := some
    obtain ⟨used, kept⟩ := sound.begun n (own mem)
    refine ⟨n, own mem, mem, ?_⟩
    cases phase : (s.system.client k).invokePhase (id n) with
    | unused => exact absurd phase used
    | cancelled => exact absurd phase kept
    | done result =>
      exact absurd ⟨_, _, NestedStep.resume mem here phase still, trivial⟩ stuck
    | _ => exact waiting n mem (by rw [phase]; rfl)

/-- If anything is pending, some invoke waits for a Response. -/
theorem stuck_pending (stuck : ¬ CanMove env debug programs cap s) (known : Activated xs s)
    (fresh : ∀ k, ∃ i, (s.system.client k).invokePhase i = .unused) (pending : Pending s) :
    ∃ k i, Awaits (s.system.client k) i := by
  obtain ⟨k, i, active⟩ := pending
  by_cases polled : Polled s k i
  · exact ⟨k, i, stuck_invoke stuck polled active⟩
  · simp only [Polled, not_forall] at polled
    obtain ⟨t, act, n, here, _, _, _⟩ := polled
    obtain ⟨m, _, _, waits⟩ := stuck_handler stuck known (fresh k) here
    exact ⟨k, act.id m, waits⟩

end TokimoNested

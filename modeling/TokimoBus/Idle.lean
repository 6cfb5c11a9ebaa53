import TokimoBus.Shutdown
import TokimoBus.SlotLedger
import Mathlib.Tactic.IntervalCases

/-!
The idle exit of `run_until_shutdown`, on a monotone clock of nanoseconds. `handle_inbound`
records the arrival of an Invoke in `last_activity`, which starts with the client; the polling
loop sleeps a quarter of the threshold, copies `last_activity` and then reads the clock. Time
passes between any two of these steps, and the reader loop and the polling loops run beside each
other.
-/
namespace TokimoIdle
open TokimoFrame TokimoOutbound TokimoBroker TokimoClient TokimoShutdown LabelledRuns SlotLedger

/-- How far `handle_inbound` is with an Invoke: it has read the clock for `record_activity`, then
    it has stored what it read and spawns the task of `dispatch_invoke`. -/
inductive Recording where
  | idle
  | stamped (inv : Invoke) (now : Nat)
  | stored (inv : Invoke)
  deriving DecidableEq

inductive Poll where
  | off
  | awake
  | asleep (deadline : Nat)
  | looked (last : Nat)
  deriving DecidableEq

def Poll.resting : Poll → Bool
  | .off | .asleep _ => true
  | _ => false

def Poll.copy : Poll → Option Nat
  | .looked last => some last
  | _ => none

def period (threshold : Duration) : Nat := threshold.nanos / 4

structure Timed where
  signals : Signals
  clock : Nat
  lastActivity : Option Nat
  recording : Recording
  poll : WaiterId → Poll

def Timed.new (hello : HelloRequest) (handlers : String → Option HandlerId) : Timed where
  signals := Signals.new hello handlers
  clock := 0
  lastActivity := none
  recording := .idle
  poll := fun _ => .off

def Timed.setPoll (s : Timed) (u : WaiterId) (p : Poll) : Timed :=
  { s with poll := Function.update s.poll u p }

def Timed.setRecording (s : Timed) (r : Recording) : Timed := { s with recording := r }

def Timed.setActivity (s : Timed) (now : Nat) : Timed := { s with lastActivity := some now }

def reads : SignalAct → Bool
  | .client a | .swap _ a => runs a
  | _ => false

/-- The step does not interrupt the reader loop, or a polling loop, between two awaits. -/
def Turn (s : Timed) : SignalAct → Prop
  | .client (.invoke inv _) => s.recording = .stored inv
  | .woken u | .drop u => (s.poll u).resting = true
  | .idle _ => False
  | x => reads x = true → s.recording = .idle

def Timed.after (s : Timed) (idleExit : Option Duration) : SignalAct → Timed
  | .client (.acked _) => s.setActivity s.clock
  | .client (.invoke _ _) => s.setRecording .idle
  | .wait u => s.setPoll u (if idleExit.isSome then .awake else .off)
  | .woken u | .drop u => s.setPoll u .off
  | _ => s

inductive IdleAct where
  | tick (now : Nat)
  | signal (x : SignalAct) (now : Nat)
  | handle (inv : Invoke) (now : Nat)
  | record (now : Nat)
  | sleep (u : WaiterId) (deadline : Nat)
  | look (u : WaiterId) (last : Nat)
  | again (u : WaiterId) (now : Nat)
  | exit (u : WaiterId) (now : Nat)

inductive IdleStep (toVecNamed : Encoder) (debug : BusFrame → String)
    (idleExit : Option Duration) : Timed → IdleAct → Timed → Prop where
  | tick {s : Timed} {now : Nat} (later : s.clock ≤ now) :
      IdleStep toVecNamed debug idleExit s (.tick now) { s with clock := now }
  | signal {s : Timed} {x : SignalAct} {v : Signals} (turn : Turn s x)
      (one : SignalStep toVecNamed debug idleExit s.signals x v) :
      IdleStep toVecNamed debug idleExit s (.signal x s.clock)
        { s.after idleExit x with signals := v }
  | handle {s : Timed} {inv : Invoke} (here : s.signals.client.runner = .reading)
      (free : ∀ d, s.signals.shutdown d ≠ .swapped .runner) (ready : s.recording = .idle) :
      IdleStep toVecNamed debug idleExit s (.handle inv s.clock)
        (s.setRecording (.stamped inv s.clock))
  | record {s : Timed} {inv : Invoke} {now : Nat} (here : s.recording = .stamped inv now) :
      IdleStep toVecNamed debug idleExit s (.record now)
        ((s.setActivity now).setRecording (.stored inv))
  | sleep {s : Timed} {u : WaiterId} {threshold : Duration} (here : s.poll u = .awake)
      (configured : idleExit = some threshold) :
      IdleStep toVecNamed debug idleExit s (.sleep u (s.clock + period threshold))
        (s.setPoll u (.asleep (s.clock + period threshold)))
  | look {s : Timed} {u : WaiterId} {deadline last : Nat}
      (here : s.poll u = .asleep deadline) (due : deadline ≤ s.clock)
      (value : s.lastActivity = some last) :
      IdleStep toVecNamed debug idleExit s (.look u last) (s.setPoll u (.looked last))
  | again {s : Timed} {u : WaiterId} {last : Nat} {threshold : Duration}
      (here : s.poll u = .looked last) (configured : idleExit = some threshold)
      (busy : s.clock - last < threshold.nanos) :
      IdleStep toVecNamed debug idleExit s (.again u s.clock) (s.setPoll u .awake)
  | exit {s : Timed} {u : WaiterId} {last : Nat} {threshold : Duration} {v : Signals}
      (here : s.poll u = .looked last) (configured : idleExit = some threshold)
      (elapsed : threshold.nanos ≤ s.clock - last)
      (one : SignalStep toVecNamed debug idleExit s.signals (.idle u) v) :
      IdleStep toVecNamed debug idleExit s (.exit u s.clock)
        { s.setPoll u .off with signals := v }

variable {toVecNamed : Encoder} {debug : BusFrame → String} {idleExit : Option Duration}
  {threshold : Duration} {hello : HelloRequest} {handlers : String → Option HandlerId}
  {s s' : Timed} {a : IdleAct} {acts : List IdleAct} {u : WaiterId} {i j k : Nat}
  {now last : Nat}

abbrev IdleRun (toVecNamed : Encoder) (debug : BusFrame → String) (idleExit : Option Duration)
    (hello : HelloRequest) (handlers : String → Option HandlerId) (acts : List IdleAct)
    (s : Timed) : Prop :=
  Run (IdleStep toVecNamed debug idleExit) (Timed.new hello handlers) acts s

abbrev At (acts : List IdleAct) (n : Nat) (a : IdleAct) : Prop := acts[n]? = some a

def signalActs : IdleAct → List SignalAct
  | .signal x _ => [x]
  | .exit u _ => [.idle u]
  | _ => []

theorem idle_signals (run : IdleRun toVecNamed debug idleExit hello handlers acts s) :
    SignalRun toVecNamed debug idleExit hello handlers (acts.flatMap signalActs) s.signals := by
  refine run_map Timed.signals signalActs ?_ run
  intro v a w _ step
  cases step with
  | signal turn one => exact run_single one
  | exit _ _ _ one => exact run_single one
  | _ => exact Run.nil

def marks : IdleAct → Option (Unit × Option Nat)
  | .record now | .signal (.client (.acked _)) now => some ((), some now)
  | _ => none

def copies : IdleAct → Option (WaiterId × Option Nat)
  | .look u last => some (u, some last)
  | .again u _ | .exit u _ | .signal (.wait u) _ | .signal (.woken u) _ | .signal (.drop u) _ =>
    some (u, none)
  | _ => none

theorem activity_ledger : Ledger (IdleStep toVecNamed debug idleExit)
    (fun s _ => s.lastActivity) marks where
  write := by
    intro s a s' k x step touch
    unfold marks at touch
    split at touch
    · cases touch
      cases step with
      | record => rfl
    · cases touch
      cases step with
      | signal => rfl
    · cases touch
  keep := by
    intro s a s' step touch
    cases step with
    | record => cases touch
    | @signal x v turn one =>
      unfold Timed.after
      split
      · cases touch
      all_goals rfl
    | _ => rfl

theorem copy_update (f : WaiterId → Poll) (u : WaiterId) (p : Poll) :
    (fun v => (Function.update f u p v).copy) =
      Function.update (fun v => (f v).copy) u p.copy :=
  Function.comp_update Poll.copy f u p

theorem copy_ledger : Ledger (IdleStep toVecNamed debug idleExit)
    (fun s u => (s.poll u).copy) copies where
  write := by
    intro s a s' k x step touch
    unfold copies at touch
    split at touch
    · cases touch
      cases step with
      | look => exact copy_update _ _ _
    · cases touch
      cases step with
      | again => exact copy_update _ _ _
    · cases touch
      cases step with
      | exit => exact copy_update _ _ _
    · cases touch
      cases step with
      | signal =>
        have empty : (if idleExit.isSome then Poll.awake else .off).copy = none := by
          split <;> rfl
        have same := copy_update s.poll k (if idleExit.isSome then .awake else .off)
        rw [empty] at same
        exact same
    · cases touch
      cases step with
      | signal => exact copy_update _ _ _
    · cases touch
      cases step with
      | signal => exact copy_update _ _ _
    · cases touch
  keep := by
    intro s a s' step touch
    cases step with
    | look | again | exit => cases touch
    | @sleep u threshold here configured =>
      have empty : (s.poll u).copy = none := by rw [here]; rfl
      have same := copy_update s.poll u (.asleep (s.clock + period threshold))
      refine same.trans ?_
      change Function.update (fun v => (s.poll v).copy) u none = _
      rw [← empty, Function.update_eq_self]
    | @signal x v turn one =>
      unfold Timed.after
      split
      · rfl
      · rfl
      · cases touch
      · cases touch
      · cases touch
      · rfl
    | _ => rfl

structure Timely (s : Timed) : Prop where
  activity : ∀ last, s.lastActivity = some last → last ≤ s.clock
  stamped : ∀ inv now, s.recording = .stamped inv now → now ≤ s.clock ∧
    ∀ last, s.lastActivity = some last → last ≤ now
  reading : s.recording ≠ .idle → s.signals.client.runner = .reading
  looked : ∀ u last, (s.poll u).copy = some last → last ≤ s.clock

theorem reading_kept {c c' : Client} {b : ClientAct} (step : ClientStep toVecNamed debug c b c')
    (here : c.runner = .reading) (stays : b ≠ .hangup) : c'.runner = .reading := by
  cases step with
  | greet now | greetBroken now | acked now | refused now | unread now | run now | stop now
  | finish now =>
    rw [here] at now
    cases now
  | hangup => exact absurd rfl stays
  | _ => exact here

theorem after_clock (s : Timed) (x : SignalAct) : (s.after idleExit x).clock = s.clock := by
  unfold Timed.after
  split <;> rfl

theorem after_recording {x : SignalAct} {r : Recording}
    (now : (s.after idleExit x).recording = r) : s.recording = r ∨ r = .idle := by
  unfold Timed.after at now
  split at now
  case h_2 => exact Or.inr now.symm
  all_goals exact Or.inl now

theorem after_copy {x : SignalAct} (held : ((s.after idleExit x).poll u).copy = some last) :
    (s.poll u).copy = some last := by
  unfold Timed.after at held
  split at held
  case h_3 =>
    refine moved_from rfl ?_ held
    split <;> simp [Poll.copy]
  case h_4 | h_5 => exact moved_from rfl (by simp [Poll.copy]) held
  all_goals exact held

theorem signal_reading {x : SignalAct} {v : Signals} (known : Timely s) (turn : Turn s x)
    (one : SignalStep toVecNamed debug idleExit s.signals x v)
    (busy : (s.after idleExit x).recording ≠ .idle) : v.client.runner = .reading := by
  have before : s.recording ≠ .idle := by
    intro idle
    rcases after_recording (r := (s.after idleExit x).recording) rfl with same | same
    · exact busy (same.symm.trans idle)
    · exact busy same
  have here := known.reading before
  cases one with
  | @client b c free quiet one =>
    refine reading_kept one here ?_
    rintro rfl
    exact before (turn rfl)
  | @swap d b c who new free calls one =>
    refine reading_kept one here ?_
    rintro rfl
    cases calls
  | _ => exact here

theorem timely_signal {x : SignalAct} {v : Signals} (known : Timely s) (turn : Turn s x)
    (one : SignalStep toVecNamed debug idleExit s.signals x v) :
    Timely { s.after idleExit x with signals := v } := by
  have activity : (∃ b, x = .client (.acked b)) ∨
      (s.after idleExit x).lastActivity = s.lastActivity := by
    unfold Timed.after
    split
    case h_1 b => exact Or.inl ⟨b, rfl⟩
    all_goals exact Or.inr rfl
  have looked : ∀ u last, ((s.after idleExit x).poll u).copy = some last →
      last ≤ (s.after idleExit x).clock := by
    intro u last held
    rw [after_clock]
    exact known.looked u last (after_copy held)
  refine ⟨?_, ?_, signal_reading known turn one, looked⟩
  · intro last value
    change last ≤ (s.after idleExit x).clock
    rw [after_clock]
    rcases activity with ⟨b, rfl⟩ | same
    · cases value
      exact Nat.le_refl _
    · exact known.activity last (same.symm.trans value)
  · intro inv now stamped
    change now ≤ (s.after idleExit x).clock ∧ _
    rw [after_clock]
    rcases after_recording stamped with old | absent
    · rcases activity with ⟨b, rfl⟩ | same
      · -- the client has only now been made, and reads nothing yet
        have reading := known.reading (by simp [old])
        cases one with
        | client _ _ one =>
          cases one with
          | acked here => cases here.symm.trans reading
      · obtain ⟨early, least⟩ := known.stamped inv now old
        exact ⟨early, fun last value => least last (same.symm.trans value)⟩
    · cases absent

theorem timely_step (known : Timely s) (step : IdleStep toVecNamed debug idleExit s a s') :
    Timely s' := by
  cases step with
  | tick later =>
    constructor
    · intro last value
      exact Nat.le_trans (known.activity last value) later
    · intro inv now here
      obtain ⟨early, least⟩ := known.stamped inv now here
      exact ⟨Nat.le_trans early later, least⟩
    · exact known.reading
    · intro u last held
      exact Nat.le_trans (known.looked u last held) later
  | signal turn one => exact timely_signal known turn one
  | handle here free ready =>
    refine ⟨known.activity, ?_, fun _ => here, known.looked⟩
    intro inv now stamped
    cases stamped
    exact ⟨Nat.le_refl _, known.activity⟩
  | @record inv now here =>
    obtain ⟨early, least⟩ := known.stamped inv now here
    refine ⟨?_, ?_, ?_, known.looked⟩
    · intro last value
      cases value
      exact early
    · intro inv' now' stamped
      cases stamped
    · intro _
      exact known.reading (by simp [here])
  | sleep | again =>
    refine ⟨known.activity, known.stamped, known.reading, ?_⟩
    intro v last held
    exact known.looked v last (moved_from rfl (by simp [Poll.copy]) held)
  | exit _ _ _ one =>
    cases one with
    | idle =>
      refine ⟨known.activity, known.stamped, known.reading, ?_⟩
      intro v last held
      exact known.looked v last (moved_from rfl (by simp [Poll.copy]) held)
  | @look u deadline last here due value =>
    refine ⟨known.activity, known.stamped, known.reading, ?_⟩
    intro v last' held
    rcases moved_to held with old | ⟨_, new⟩
    · exact known.looked v last' old
    · cases new
      exact known.activity last value

theorem timely_stable : Stable (IdleStep toVecNamed debug idleExit) (Timed.new hello handlers)
    Timely :=
  fun _ _ _ _ step known => timely_step known step

theorem timely (reach : Reachable (IdleStep toVecNamed debug idleExit) (Timed.new hello handlers) s) :
    Timely s := by
  refine reachable_invariant ⟨?_, ?_, ?_, ?_⟩ timely_stable reach
  · intro last value
    cases value
  · intro inv now stamped
    cases stamped
  · intro busy
    exact absurd rfl busy
  · intro u last held
    cases held

theorem activity_stable (τ : Nat) : Stable (IdleStep toVecNamed debug idleExit)
    (Timed.new hello handlers) (fun s => ∃ last, s.lastActivity = some last ∧ τ ≤ last) := by
  intro s a s' reach step known
  obtain ⟨last, value, since⟩ := known
  have clocks := timely reach
  cases step with
  | record here =>
    obtain ⟨_, least⟩ := clocks.stamped _ _ here
    exact ⟨_, rfl, Nat.le_trans since (least last value)⟩
  | signal turn one =>
    unfold Timed.after
    split
    case h_1 => exact ⟨_, rfl, Nat.le_trans since (clocks.activity last value)⟩
    all_goals exact ⟨last, value, since⟩
  | _ => exact ⟨last, value, since⟩

theorem mark_stores (step : IdleStep toVecNamed debug idleExit s a s')
    (mark : marks a = some ((), some now)) : s'.lastActivity = some now := by
  have written := congrFun (activity_ledger.write step mark) ()
  rwa [Function.update_self] at written

/-- A polling loop copies the last instant that was stored, and no earlier one. -/
theorem look_latest (run : IdleRun toVecNamed debug idleExit hello handlers acts s)
    (here : At acts k (.look u last)) : (∃ m, FilledBy marks acts () last k m) ∧
      ∀ m a τ, m < k → At acts m a → marks a = some ((), some τ) → τ ≤ last := by
  obtain ⟨v, v', before, one, _⟩ := run_at run here
  have value : v.lastActivity = some last := by
    cases one with
    | look _ _ value => exact value
  constructor
  · have bound := (List.getElem?_eq_some_iff.mp here).1
    exact filled_before activity_ledger rfl before (Nat.le_of_lt bound) value
  · intro m a τ order there mark
    obtain ⟨x, x', _, look, last', stored, since⟩ := holds_at_later (activity_stable τ) run there
      here order fun _ _ _ step => ⟨τ, mark_stores step mark, Nat.le_refl _⟩
    cases look with
    | look _ _ copied =>
      rw [copied] at stored
      cases stored
      exact since

def used : IdleAct → Option Nat
  | .handle _ now | .signal (.client (.ignore (.streamOpen _))) now => some now
  | _ => none

theorem used_frame {τ : Nat} (active : used a = some τ) : (∃ inv, a = .handle inv τ) ∨
    ∃ o, a = .signal (.client (.ignore (.streamOpen o))) τ := by
  unfold used at active
  split at active <;> cases active
  · exact Or.inl ⟨_, rfl⟩
  · exact Or.inr ⟨_, rfl⟩

def Within (threshold : Duration) (t τ : Nat) : Prop := t < τ + threshold.nanos ∧ τ ≤ t

/-- `run_until_shutdown` returns through its idle branch only if nothing was used for as long as
    the threshold. -/
def Respects (threshold : Duration) (acts : List IdleAct) : Prop :=
  ∀ i u t, At acts i (.exit u t) → ∀ j a τ, j < i → At acts j a → used a = some τ →
    ¬ Within threshold t τ

/-- One round of a polling loop: it copies `last_activity` at `k` and reads the clock at `i`. -/
structure Polled (acts : List IdleAct) (u : WaiterId) (k i : Nat) (last t : Nat) : Prop where
  looked : FilledBy copies acts u last i k
  read : At acts i (.exit u t) ∨ At acts i (.again u t)

/-- What is used at `j` and not recorded before `k`: a StreamOpen, which never is, and an Invoke
    that `handle_inbound` has not got to record. -/
inductive Missed (acts : List IdleAct) (k j : Nat) (τ : Nat) : Prop where
  | stream {o : StreamOpen}
      (here : At acts j (.signal (.client (.ignore (.streamOpen o))) τ)) : Missed acts k j τ
  | late {inv : Invoke} (here : At acts j (.handle inv τ))
      (unrecorded : ∀ m, j < m → m < k → ¬ At acts m (.record τ)) : Missed acts k j τ

def Fresh (threshold : Duration) (acts : List IdleAct) (k : Nat) (t : Nat) : Prop :=
  ∃ m a τ, m < k ∧ At acts m a ∧ marks a = some ((), some τ) ∧ Within threshold t τ

/-- Wherever a round misses something in its interval, something else in it was recorded. -/
def Covered (threshold : Duration) (acts : List IdleAct) : Prop :=
  ∀ u k i last t, Polled acts u k i last t → ∀ j τ, j < i → Missed acts k j τ →
    Within threshold t τ → Fresh threshold acts k t

theorem copied_look (filled : FilledBy copies acts u last i k) :
    k < i ∧ At acts k (.look u last) := by
  obtain ⟨order, ⟨b, here, copy⟩, _⟩ := filled
  refine ⟨order, ?_⟩
  unfold copies at copy
  split at copy <;> cases copy
  exact here

theorem exit_polled (run : IdleRun toVecNamed debug (some threshold) hello handlers acts s)
    {t : Nat} (here : At acts i (.exit u t)) :
    ∃ k last, Polled acts u k i last t ∧ threshold.nanos ≤ t - last := by
  obtain ⟨v, v', before, one, _⟩ := run_at run here
  have bound := (List.getElem?_eq_some_iff.mp here).1
  cases one with
  | @exit _ last _ _ looked configured elapsed one =>
    cases configured
    obtain ⟨k, filled⟩ := filled_before copy_ledger (k := u) rfl before (Nat.le_of_lt bound)
      (v := last) (by simp [looked, Poll.copy])
    exact ⟨k, last, ⟨filled, Or.inl here⟩, elapsed⟩

theorem again_fresh (run : IdleRun toVecNamed debug (some threshold) hello handlers acts s)
    {t : Nat} (polled : Polled acts u k i last t) (here : At acts i (.again u t)) :
    Fresh threshold acts k t := by
  obtain ⟨v, v', before, one, copy⟩ := found_of_filled copy_ledger run polled.looked here
  have early := (timely ⟨_, before⟩).looked u last copy
  obtain ⟨_, look⟩ := copied_look polled.looked
  obtain ⟨⟨m, order, ⟨b, there, mark⟩, _⟩, _⟩ := look_latest run look
  cases one with
  | again looked configured busy =>
    cases configured
    simp only [looked, Poll.copy, Option.some.injEq] at copy
    subst copy
    refine ⟨m, b, _, order, there, mark, ?_, early⟩
    omega

/-- In which runs the idle exit respects activity. -/
theorem respects_iff (run : IdleRun toVecNamed debug (some threshold) hello handlers acts s) :
    Respects threshold acts ↔ Covered threshold acts := by
  constructor
  · intro respects u k i last t polled j τ order missed inside
    rcases polled.read with left | stayed
    · cases missed with
      | stream here => exact absurd inside (respects i u t left j _ τ order here rfl)
      | late here => exact absurd inside (respects i u t left j _ τ order here rfl)
    · exact again_fresh run polled stayed
  · intro covered i u t left j a τ order here active inside
    obtain ⟨k, last, polled, elapsed⟩ := exit_polled run left
    obtain ⟨_, look⟩ := copied_look polled.looked
    obtain ⟨_, latest⟩ := look_latest run look
    -- whatever was recorded in the interval before the copy would have kept the loop going
    have stale : ¬ Fresh threshold acts k t := by
      rintro ⟨m, b, τ', earlier, there, mark, recent, _⟩
      have since := latest m b τ' earlier there mark
      omega
    apply stale
    rcases used_frame active with ⟨inv, rfl⟩ | ⟨o, rfl⟩
    · by_cases recorded : ∃ m, j < m ∧ m < k ∧ At acts m (.record τ)
      · obtain ⟨m, _, earlier, there⟩ := recorded
        exact ⟨m, _, τ, earlier, there, rfl, inside⟩
      · refine covered u k i last t polled j τ order (.late here ?_) inside
        intro m after before there
        exact recorded ⟨m, after, before, there⟩
    · exact covered u k i last t polled j τ order (.stream here) inside

def minute : Duration := Duration.fromSecs 60

theorem client_moves {b : ClientAct} {c : Client}
    (one : ClientStep toVecNamed debug s.signals.client b c)
    (calm : ∀ d, s.signals.shutdown d = .unused) (quiet : caller b = none) (held : b ≠ .release)
    (turn : Turn s (.client b)) :
    IdleStep toVecNamed debug idleExit s (.signal (.client b) s.clock)
      { s.after idleExit (.client b) with signals := s.signals.setClient c } := by
  refine IdleStep.signal turn (SignalStep.client ⟨?_, ?_⟩ quiet one)
  · intro _ d swapped
    cases (calm d).symm.trans swapped
  · intro released
    exact absurd released held

theorem sleeps {deadline : Nat} (here : s.poll u = .awake) (configured : idleExit = some threshold)
    (quarter : deadline = s.clock + period threshold) :
    IdleStep toVecNamed debug idleExit s (.sleep u deadline) (s.setPoll u (.asleep deadline)) := by
  subst quarter
  exact IdleStep.sleep here configured

def waitingActs : List IdleAct :=
  [.signal (.client (.greet (.hello musicHello))) 0,
    .signal (.client (.acked ⟨1, Duration.fromSecs 15⟩)) 0, .signal (.client .run) 0,
    .tick 45000000000, .signal (.wait 0) 45000000000, .sleep 0 60000000000, .tick 59000000000]

theorem waiting_run : ∃ s, IdleRun TokimoWire.toVecNamed quiet (some minute) musicHello noHandlers
    waitingActs s ∧ s.clock = 59000000000 ∧ s.poll 0 = .asleep 60000000000 ∧
    s.lastActivity = some 0 ∧ s.recording = .idle ∧ s.signals.waiter 0 = .waiting ∧
    s.signals.client.runner = .reading ∧ (∀ d, s.signals.shutdown d = .unused) ∧
    s.signals.client.task 0 = .unused := by
  have run : IdleRun TokimoWire.toVecNamed quiet (some minute) musicHello noHandlers []
    (Timed.new musicHello noHandlers) := Run.nil
  have run := run.snoc (client_moves (ClientStep.greet rfl (by decide +kernel)) (fun _ => rfl) rfl
    (by simp) (by simp [Turn, reads, runs]))
  have run := run.snoc (client_moves (ClientStep.acked (a := ⟨1, Duration.fromSecs 15⟩) rfl)
    (fun _ => rfl) rfl (by simp) (by simp [Turn, reads, runs]))
  have run := run.snoc (client_moves (ClientStep.run rfl) (fun _ => rfl) rfl (by simp)
    (by simp [Turn, reads, runs]))
  have run := run.snoc (@IdleStep.tick _ _ _ _ 45000000000 (by decide))
  have run := run.snoc (@IdleStep.signal _ _ _ _ (.wait 0) _ (by simp [Turn, reads])
    (SignalStep.wait rfl rfl))
  have run := run.snoc (@sleeps _ _ _ minute _ 0 60000000000 rfl rfl (by decide))
  have run := run.snoc (@IdleStep.tick _ _ _ _ 59000000000 (by decide))
  exact ⟨_, run, rfl, rfl, rfl, rfl, rfl, rfl, fun _ => rfl, rfl⟩

def expiryActs (last t : Nat) : List IdleAct := [.tick t, .look 0 last, .exit 0 t]

theorem minute_expires {deadline t : Nat}
    (run : IdleRun toVecNamed debug (some minute) hello handlers acts s) (early : s.clock ≤ t)
    (poll : s.poll 0 = .asleep deadline) (due : deadline ≤ t)
    (activity : s.lastActivity = some last) (elapsed : minute.nanos ≤ t - last)
    (waiter : s.signals.waiter 0 = .waiting) :
    ∃ s', IdleRun toVecNamed debug (some minute) hello handlers (acts ++ expiryActs last t) s' := by
  have rest := run_single (@IdleStep.tick toVecNamed debug (some minute) s t early)
  have rest := rest.snoc (@IdleStep.look _ _ _ _ 0 deadline last poll due activity)
  have rest := rest.snoc (@IdleStep.exit _ _ _ _ 0 last minute _ (by simp [Timed.setPoll]) rfl
    elapsed (SignalStep.idle (by
      change (s.signals.waiter 0).active = true
      rw [waiter]
      rfl) rfl))
  exact ⟨_, run_append run rest⟩

def pageInvoke : Invoke := ⟨1, "page", [], CallerCtx.default⟩

/-- An Invoke arrives a second before the minute is over. The first round of the loop finds it
    recorded and goes on; a minute after the Invoke the loop returns. -/
def usedActs : List IdleAct :=
  waitingActs ++ [IdleAct.handle pageInvoke 59000000000, .record 59000000000,
    .signal (.client (.invoke pageInvoke 0)) 59000000000, .tick 60000000000, .look 0 59000000000,
    .again 0 60000000000, .sleep 0 75000000000] ++ expiryActs 59000000000 119000000000

theorem used_run : ∃ s, IdleRun TokimoWire.toVecNamed quiet (some minute) musicHello noHandlers
    usedActs s := by
  obtain ⟨⟨signals, clock, _, _, polls⟩, start, early, asleep, _, ready, waiter, reading, calm,
    new⟩ := waiting_run
  obtain rfl : clock = 59000000000 := early
  have run := start.snoc (@IdleStep.handle _ _ _ _ pageInvoke reading
    (fun d swapped => by cases (calm d).symm.trans swapped) ready)
  have run := run.snoc (@IdleStep.record _ _ _ _ pageInvoke 59000000000 rfl)
  have run := run.snoc (client_moves (@ClientStep.invoke _ _ _ pageInvoke 0 reading new)
    calm rfl (by simp) rfl)
  have soon : 59000000000 ≤ 60000000000 := by decide
  have busy : 60000000000 - 59000000000 < minute.nanos := by decide
  have later : 60000000000 ≤ 119000000000 := by decide
  have due : 75000000000 ≤ 119000000000 := by decide
  have elapsed : minute.nanos ≤ 119000000000 - 59000000000 := by decide
  have run := run.snoc (@IdleStep.tick _ _ _ _ 60000000000 soon)
  have run := run.snoc (@IdleStep.look _ _ _ _ 0 60000000000 59000000000 asleep (Nat.le_refl _) rfl)
  have run := run.snoc (@IdleStep.again _ _ _ _ 0 59000000000 minute rfl rfl busy)
  have quarter : 75000000000 = 60000000000 + period minute := by decide
  have run := run.snoc (@sleeps _ _ _ minute _ 0 75000000000 rfl rfl quarter)
  exact minute_expires run later rfl due rfl elapsed waiter

theorem used_handled {inv : Invoke} {τ : Nat} (here : At usedActs j (.handle inv τ)) :
    j = 7 ∧ τ = 59000000000 := by
  rcases Nat.lt_trichotomy j 7 with before | rfl | after
  · interval_cases j <;> cases here
  · cases here
    exact ⟨rfl, rfl⟩
  · have mem := index_mem_drop after here
    simp [usedActs, waitingActs, expiryActs] at mem

theorem used_respected : Respects minute usedActs := by
  obtain ⟨s, run⟩ := used_run
  refine (respects_iff run).mpr ?_
  intro u k i last t polled j τ _ missed
  have look := (copied_look polled.looked).2
  exfalso
  cases missed with
  | stream here =>
    have mem := List.mem_of_getElem? here
    simp [usedActs, waitingActs, expiryActs] at mem
  | late here unrecorded =>
    -- both rounds copy what the step at 8 has recorded
    obtain ⟨rfl, rfl⟩ := used_handled here
    have after : 8 < k := by
      by_contra early
      interval_cases k <;> cases look
    exact unrecorded 8 (by omega) after rfl

/-- A StreamOpen arrives a second before the minute is over. -/
def streamActs : List IdleAct :=
  waitingActs ++ [IdleAct.signal (.client (.ignore (.streamOpen ⟨1, "play", CallerCtx.default, []⟩)))
    59000000000] ++ expiryActs 0 60000000000

theorem stream_unnoticed : ¬ ∀ acts s, IdleRun TokimoWire.toVecNamed quiet (some minute) musicHello
    noHandlers acts s → Respects minute acts := by
  intro claim
  obtain ⟨s, start, early, poll, activity, ready, waiter, reading, calm, _⟩ := waiting_run
  have stream := start.snoc (client_moves (ClientStep.ignore (f := .streamOpen ⟨1, "play",
    CallerCtx.default, []⟩) reading trivial) calm rfl (by simp) (fun _ => ready))
  rw [early] at stream
  have soon : s.clock ≤ 60000000000 := by rw [early]; decide
  obtain ⟨s', whole⟩ := minute_expires stream soon poll (Nat.le_refl _) activity (by decide) waiter
  refine claim streamActs s' whole 10 0 60000000000 rfl 7 _ 59000000000
    (by decide) rfl rfl ?_
  unfold Within
  decide

end TokimoIdle

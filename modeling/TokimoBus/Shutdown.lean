import TokimoBus.ClientTeardown

/-!
How a client tells `run_until_shutdown` that it is over: a flag that fires once and a `Notify`
without a permit. `shutdown` swaps the flag and, if it was the first, wakes the waiters there
are; `run_until_shutdown` waits without a look at the flag. A call of `shutdown` is under way
between its swap and its `notify_waiters`, and `run_until_shutdown` waits from its first poll on,
which makes its `notified()`.
-/
namespace TokimoShutdown
open TokimoFrame TokimoOutbound TokimoBroker TokimoClient LabelledRuns

abbrev ShutdownId := Nat
abbrev WaiterId := Nat

inductive Caller where
  | app
  | runner
  deriving DecidableEq

inductive ShutdownPhase where
  | unused
  | swapped (caller : Caller)
  | returned
  deriving DecidableEq

inductive Waiter where
  | unused
  | waiting
  | notified
  | returned
  deriving DecidableEq

def Waiter.active : Waiter → Bool
  | .waiting | .notified => true
  | _ => false

/-- `notify_waiters` wakes whoever waits and leaves nothing behind. -/
def notifyWaiters (waiter : WaiterId → Waiter) : WaiterId → Waiter :=
  fun u => if waiter u = .waiting then .notified else waiter u

structure Signals where
  client : Client
  shutdown : ShutdownId → ShutdownPhase
  waiter : WaiterId → Waiter

def Signals.new (hello : HelloRequest) (handlers : String → Option HandlerId) : Signals where
  client := Client.new hello handlers
  shutdown := fun _ => .unused
  waiter := fun _ => .unused

def Signals.setClient (s : Signals) (c : Client) : Signals := { s with client := c }

def Signals.setShutdown (s : Signals) (d : ShutdownId) (p : ShutdownPhase) : Signals :=
  { s with shutdown := Function.update s.shutdown d p }

def Signals.setWaiter (s : Signals) (u : WaiterId) (p : Waiter) : Signals :=
  { s with waiter := Function.update s.waiter u p }

def Signals.notify (s : Signals) : Signals := { s with waiter := notifyWaiters s.waiter }

def caller : ClientAct → Option Caller
  | .shutdown => some .app
  | .shutdownFrame | .stop => some .runner
  | _ => none

def runs : ClientAct → Bool
  | .ping | .pingClosed | .shutdownFrame | .invoke _ _ | .response _ _ | .ignore _ | .hangup
  | .stop | .finish => true
  | _ => false

/-- The step is not kept up by a call that its own task is in, or by a clone of the client that
    a waiting call holds. -/
def Free (s : Signals) (a : ClientAct) : Prop :=
  (runs a = true → ∀ d, s.shutdown d ≠ .swapped .runner) ∧
    (a = .release → ∀ u, (s.waiter u).active = false)

inductive SignalAct where
  | client (a : ClientAct)
  | swap (d : ShutdownId) (a : ClientAct)
  | notifyWaiters (d : ShutdownId)
  | wait (u : WaiterId)
  | woken (u : WaiterId)
  | idle (u : WaiterId)
  | drop (u : WaiterId)
  deriving DecidableEq

inductive SignalStep (toVecNamed : Encoder) (debug : BusFrame → String)
    (idleExit : Option Duration) : Signals → SignalAct → Signals → Prop where
  | client {s : Signals} {a : ClientAct} {c : Client} (free : Free s a) (quiet : caller a = none)
      (one : ClientStep toVecNamed debug s.client a c) :
      SignalStep toVecNamed debug idleExit s (.client a) (s.setClient c)
  | swap {s : Signals} {d : ShutdownId} {a : ClientAct} {c : Client} {who : Caller}
      (new : s.shutdown d = .unused) (free : Free s a) (calls : caller a = some who)
      (one : ClientStep toVecNamed debug s.client a c) :
      SignalStep toVecNamed debug idleExit s (.swap d a) ((s.setClient c).setShutdown d
        (if s.client.shutdownFired then .returned else .swapped who))
  | notifyWaiters {s : Signals} {d : ShutdownId} {who : Caller}
      (here : s.shutdown d = .swapped who) :
      SignalStep toVecNamed debug idleExit s (.notifyWaiters d)
        (s.notify.setShutdown d .returned)
  | wait {s : Signals} {u : WaiterId} (new : s.waiter u = .unused)
      (held : s.client.appHolds = true) :
      SignalStep toVecNamed debug idleExit s (.wait u) (s.setWaiter u .waiting)
  | woken {s : Signals} {u : WaiterId} (here : s.waiter u = .notified) :
      SignalStep toVecNamed debug idleExit s (.woken u) (s.setWaiter u .returned)
  -- the other branch of the `select!`, whenever the threshold has passed
  | idle {s : Signals} {u : WaiterId} {threshold : Duration}
      (here : (s.waiter u).active = true) (configured : idleExit = some threshold) :
      SignalStep toVecNamed debug idleExit s (.idle u) (s.setWaiter u .returned)
  | drop {s : Signals} {u : WaiterId} (here : (s.waiter u).active = true) :
      SignalStep toVecNamed debug idleExit s (.drop u) (s.setWaiter u .returned)

variable {toVecNamed : Encoder} {debug : BusFrame → String} {idleExit : Option Duration}
  {hello : HelloRequest} {handlers : String → Option HandlerId} {s s' : Signals} {a : SignalAct}
  {acts : List SignalAct} {acts' : List ClientAct} {c c' : Client} {u : WaiterId}

abbrev SignalRun (toVecNamed : Encoder) (debug : BusFrame → String) (idleExit : Option Duration)
    (hello : HelloRequest) (handlers : String → Option HandlerId) (acts : List SignalAct)
    (s : Signals) : Prop :=
  Run (SignalStep toVecNamed debug idleExit) (Signals.new hello handlers) acts s

def clientActs : SignalAct → List ClientAct
  | .client a | .swap _ a => [a]
  | _ => []

theorem signal_client (run : SignalRun toVecNamed debug idleExit hello handlers acts s) :
    ClientRun toVecNamed debug hello handlers (acts.flatMap clientActs) s.client := by
  refine run_map Signals.client clientActs ?_ run
  intro v a w _ step
  cases step with
  | client free quiet one => exact run_single one
  | swap new free calls one => exact run_single one
  | _ => exact Run.nil

theorem step_fired {a : ClientAct} (step : ClientStep toVecNamed debug c a c') :
    c'.shutdownFired = (c.shutdownFired || (caller a).isSome) := by
  cases step with
  | shutdownFrame | stop | shutdown => exact (Bool.or_true _).symm
  | _ => exact (Bool.or_false _).symm

def Notifying (s : Signals) : Prop := ∃ d who, s.shutdown d = .swapped who

/-- The flag is set and nobody will wake the waiter any more. -/
def Lost (s : Signals) (u : WaiterId) : Prop :=
  s.client.shutdownFired = true ∧ ¬ Notifying s ∧ s.waiter u = .waiting

def NoneLost (s : Signals) : Prop := ∀ u, ¬ Lost s u

/-- The waiter makes its `notified()` before the `notify_waiters` of the client. -/
def InTime (s : Signals) : SignalAct → Prop
  | .wait _ => s.client.shutdownFired = true → Notifying s
  | _ => True

theorem notified_none (s : Signals) (u : WaiterId) : s.notify.waiter u ≠ .waiting := by
  by_cases waits : s.waiter u = .waiting
  · simp [Signals.notify, notifyWaiters, waits]
  · simp [Signals.notify, notifyWaiters, waits]

theorem waiting_kept {v : WaiterId} {p : Waiter} (other : p ≠ .waiting)
    (waits : (s.setWaiter v p).waiter u = .waiting) : s.waiter u = .waiting := by
  by_cases same : u = v
  · subst same
    simp only [Signals.setWaiter, Function.update_self] at waits
    exact absurd waits other
  · simpa [Signals.setWaiter, same] using waits

theorem lost_step (clean : NoneLost s) (step : SignalStep toVecNamed debug idleExit s a s') :
    NoneLost s' ↔ InTime s a := by
  have fewer : ∀ {v : WaiterId} {p : Waiter}, p ≠ .waiting → NoneLost (s.setWaiter v p) := by
    rintro v p other u ⟨fired, quiet, waits⟩
    exact clean u ⟨fired, quiet, waiting_kept other waits⟩
  cases step with
  | @client a c free quiet one =>
    refine iff_of_true ?_ trivial
    rintro u ⟨fired, silent, waits⟩
    have same := step_fired one
    rw [quiet, Option.isSome_none, Bool.or_false] at same
    exact clean u ⟨same.symm.trans fired, silent, waits⟩
  | @swap d a c who new free calls one =>
    refine iff_of_true ?_ trivial
    rintro u ⟨_, silent, waits⟩
    cases before : s.client.shutdownFired with
    | false =>
      apply silent
      exact ⟨d, who, by simp [Signals.setShutdown, before]⟩
    | true =>
      refine clean u ⟨before, ?_, waits⟩
      rintro ⟨e, other, swapped⟩
      apply silent
      refine ⟨e, other, ?_⟩
      have apart : e ≠ d := by
        intro same
        rw [same, new] at swapped
        cases swapped
      simpa [Signals.setShutdown, Signals.setClient, apart] using swapped
  | notifyWaiters here =>
    refine iff_of_true ?_ trivial
    rintro u ⟨_, _, waits⟩
    exact notified_none s u waits
  | @wait v new held =>
    constructor
    · intro after fired
      by_contra silent
      exact after v ⟨fired, silent, by simp [Signals.setWaiter]⟩
    · rintro early u ⟨fired, silent, _⟩
      exact silent (early fired)
  | woken | idle | drop => exact iff_of_true (fewer (by simp)) trivial

/-- In which runs no shutdown is lost. -/
theorem none_lost_iff (toVecNamed : Encoder) (debug : BusFrame → String)
    (idleExit : Option Duration) (hello : HelloRequest) (handlers : String → Option HandlerId)
    (acts : List SignalAct) (s : Signals) :
    Run (Through (SignalStep toVecNamed debug idleExit) NoneLost) (Signals.new hello handlers)
        acts s ↔
      Run (Guarded (SignalStep toVecNamed debug idleExit) InTime) (Signals.new hello handlers)
        acts s := by
  apply through_iff_guarded
  · rintro u ⟨fired, _⟩
    cases fired
  · intro v a w _ clean step
    exact lost_step clean step

/-- The flag stays set and nobody notifies twice, so a lost waiter waits until it is dropped. -/
theorem lost_step_stays (lost : Lost s u) (step : SignalStep toVecNamed debug none s a s') :
    Lost s' u ∨ a = .drop u := by
  obtain ⟨fired, silent, waits⟩ := lost
  have moved : ∀ {v : WaiterId} {p : Waiter}, u ≠ v → Lost (s.setWaiter v p) u := by
    intro v p apart
    exact ⟨fired, silent, by simpa [Signals.setWaiter, apart] using waits⟩
  cases step with
  | client free quiet one =>
    have same := step_fired one
    rw [fired, Bool.true_or] at same
    exact Or.inl ⟨same, silent, waits⟩
  | @swap d a c who new free calls one =>
    have same := step_fired one
    rw [fired, Bool.true_or] at same
    refine Or.inl ⟨same, ?_, waits⟩
    rintro ⟨e, other, swapped⟩
    by_cases eq : e = d
    · subst eq
      simp [Signals.setShutdown, fired] at swapped
    · refine silent ⟨e, other, ?_⟩
      simpa [Signals.setShutdown, Signals.setClient, eq] using swapped
  | @notifyWaiters d who here => exact absurd ⟨d, who, here⟩ silent
  | @wait v new =>
    refine Or.inl (moved ?_)
    rintro rfl
    rw [new] at waits
    cases waits
  | @woken v here =>
    refine Or.inl (moved ?_)
    rintro rfl
    rw [here] at waits
    cases waits
  | idle here configured => cases configured
  | @drop v here =>
    by_cases eq : v = u
    · exact Or.inr (by rw [eq])
    · exact Or.inl (moved (Ne.symm eq))

theorem lost_forever (lost : Lost s u) (rest : Run (SignalStep toVecNamed debug none) s acts s')
    (kept : SignalAct.drop u ∉ acts) : Lost s' u := by
  induction rest with
  | nil => exact lost
  | snoc _ step ih =>
    simp only [List.mem_append, List.mem_singleton, not_or] at kept
    rcases lost_step_stays (ih kept.1) step with still | dropped
    · exact still
    · exact absurd dropped.symm kept.2

theorem waiter_returns (fired : s.client.shutdownFired = true)
    (waits : (s.waiter u).active = true) (kept : ¬ Lost s u) :
    ∃ acts s', Run (SignalStep toVecNamed debug idleExit) s acts s' ∧ s'.waiter u = .returned := by
  cases here : s.waiter u with
  | notified =>
    exact ⟨_, _, run_single (SignalStep.woken here), by simp [Signals.setWaiter]⟩
  | waiting =>
    have notifying : Notifying s := by
      by_contra silent
      exact kept ⟨fired, silent, here⟩
    obtain ⟨d, who, swapped⟩ := notifying
    have run := run_single (@SignalStep.notifyWaiters toVecNamed debug idleExit s d who swapped)
    have told : (s.notify.setShutdown d .returned).waiter u = .notified := by
      simp [Signals.setShutdown, Signals.notify, notifyWaiters, here]
    exact ⟨_, _, run.snoc (SignalStep.woken told), by simp [Signals.setWaiter]⟩
  | unused | returned => simp [here, Waiter.active] at waits

/-- The broker hangs up before the app gets to its `run_until_shutdown`. -/
def lateActs : List SignalAct :=
  (joinActs musicHello ⟨1, Duration.fromSecs 15⟩ ++ [ClientAct.hangup]).map .client ++
    [SignalAct.swap 0 .stop, .notifyWaiters 0, .wait 0]

theorem client_run (run : Run (ClientStep toVecNamed debug) c acts' c')
    (quiet : ∀ a ∈ acts', caller a = none ∧ a ≠ .release) (start : s.client = c)
    (idle : ∀ d, s.shutdown d = .unused) :
    Run (SignalStep toVecNamed debug idleExit) s (acts'.map .client) (s.setClient c') := by
  induction run with
  | nil =>
    subst start
    exact Run.nil
  | @snoc acts v w a before step ih =>
    rw [List.map_append]
    have first := ih fun b mem => quiet b (List.mem_append_left _ mem)
    have last := quiet a (by simp)
    refine first.snoc (SignalStep.client ⟨?_, ?_⟩ last.1 step)
    · intro _ d swapped
      cases (idle d).symm.trans swapped
    · intro released
      exact absurd released last.2

theorem late_waiter_lost :
    ¬ ∀ acts s, SignalRun TokimoWire.toVecNamed quiet none musicHello noHandlers acts s →
      NoneLost s := by
  intro claim
  have run := @client_run _ _ none (Signals.new musicHello noHandlers) _ _ _
    (music_joins.snoc (ClientStep.hangup rfl)) (by simp [joinActs, caller]) rfl fun _ => rfl
  have run := run.snoc (@SignalStep.swap _ _ _ _ 0 .stop _ .runner rfl
    ⟨by simp [Signals.new, Signals.setClient], by simp⟩ rfl (ClientStep.stop rfl))
  have run := run.snoc (@SignalStep.notifyWaiters _ _ _ _ 0 .runner rfl)
  have run := run.snoc (@SignalStep.wait _ _ _ _ 0 rfl rfl)
  refine claim lateActs _ run 0 ⟨rfl, ?_, rfl⟩
  rintro ⟨d, who, swapped⟩
  by_cases first : d = 0
  · subst first
    cases swapped
  · simp [Signals.setWaiter, Signals.setShutdown, Signals.notify, Signals.setClient, Signals.new,
      first] at swapped

end TokimoShutdown

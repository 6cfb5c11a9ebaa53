import TokimoBus.Frame
import TokimoBus.LabelledRuns
import Mathlib.Logic.Function.Basic

/-!
The supervisor as a transition system: the restart loops of `run_resident`, the calls of
`ensure_up`, `register_or_replace` and `unregister`, and the child processes. An
`AppState` is named by an opaque number that stands for its `Arc`; its child mutex is
locked while some task has the guard in scope. Sleeps and waits end in steps of their own.
-/
namespace TokimoSupervisor
open TokimoFrame LabelledRuns

abbrev AppId := Nat
abbrev ChildId := Nat
abbrev TaskId := Nat

inductive Lifecycle where
  | resident
  | onDemand (idleTimeout : Duration)
  deriving DecidableEq

structure AppSpec where
  service : String
  binary : String
  args : List String
  env : List (String × String)
  lifecycle : Lifecycle
  workingDir : Option String
  deriving DecidableEq

def maxBackoff : Duration := Duration.fromSecs 300

structure Backoff where
  next : Duration
  capped : next.nanos ≤ maxBackoff.nanos
  deriving DecidableEq

def Backoff.new : Backoff := ⟨Duration.fromSecs 1, by decide⟩

def Backoff.bump (b : Backoff) : Duration × Backoff :=
  (b.next, ⟨⟨min (b.next.nanos * 2) maxBackoff.nanos,
    Nat.lt_of_le_of_lt (Nat.min_le_right _ _) maxBackoff.bounded⟩, Nat.min_le_right _ _⟩)

def Backoff.reset (_ : Backoff) : Backoff := Backoff.new

structure AppState where
  spec : AppSpec
  child : Option ChildId
  backoff : Backoff
  deriving DecidableEq

def AppState.new (spec : AppSpec) : AppState := ⟨spec, none, Backoff.new⟩

structure Command where
  binary : String
  args : List String
  env : List (String × String)
  workingDir : Option String
  deriving DecidableEq

def idleMs : Lifecycle → UInt64
  | .resident => 0
  | .onDemand idleTimeout => idleTimeout.asMillis

/-- The command of `spawn_once`; a later entry of `env` overrides an earlier one. -/
def spawnCommand (endpoint token : String) (spec : AppSpec) : Command :=
  ⟨spec.binary, spec.args,
    [("TOKIMO_BUS_SOCKET", endpoint), ("TOKIMO_BUS_TOKEN", token),
      ("TOKIMO_BUS_IDLE_MS", toString (idleMs spec.lifecycle).toNat)] ++ spec.env,
    spec.workingDir⟩

inductive ProcessState where
  | alive
  | killed
  | exited (success : Bool)
  deriving DecidableEq

structure Child where
  command : Command
  state : ProcessState
  deriving DecidableEq

inductive Caller where
  | resident (service : String)
  | ensure
  deriving DecidableEq

inductive Purpose where
  | replace (spec : AppSpec)
  | unregister (service : String)
  deriving DecidableEq

def Purpose.service : Purpose → String
  | .replace spec => spec.service
  | .unregister service => service

inductive TaskPhase where
  | unused
  -- `run_resident`
  | resident (service : String)
  | spawnLock (service : String) (a : AppId)
  | failing (service : String) (a : AppId)
  | waitLock (service : String) (a : AppId)
  | waiting (service : String) (a : AppId) (c : ChildId)
  | resting (service : String) (a : AppId)
  -- `spawn_once`
  | spawning (u : Caller) (a : AppId)
  | starting (u : Caller) (a : AppId) (token : String)
  -- `ensure_up`
  | ensure (service : String)
  | ensureLock (a : AppId)
  | ensuring (a : AppId)
  -- `register_or_replace` and `unregister`
  | contains (p : Purpose)
  | stop (p : Purpose)
  | stopLock (p : Purpose) (a : AppId)
  | stopping (p : Purpose) (a : AppId) (c : ChildId)
  | killing (p : Purpose) (a : AppId) (c : ChildId)
  | stopWait (p : Purpose) (a : AppId) (c : ChildId)
  | remove (p : Purpose)
  | insert (spec : AppSpec)
  | loop (service : String)
  | done (result : Except BusError Unit)
  | ended

/-- The `AppState` whose child mutex the task has locked. -/
def TaskPhase.holds : TaskPhase → Option AppId
  | .failing _ a | .waiting _ a _ | .spawning _ a | .starting _ a _ | .ensuring a
  | .stopping _ a _ | .killing _ a _ | .stopWait _ a _ => some a
  | _ => none

def TaskPhase.arc : TaskPhase → Option AppId
  | .spawnLock _ a | .waitLock _ a | .resting _ a | .ensureLock a | .stopLock _ a => some a
  | p => p.holds

def TaskPhase.taken : TaskPhase → Option ChildId
  | .stopping _ _ c | .killing _ _ c | .stopWait _ _ c => some c
  | _ => none

structure Supervisor where
  endpoint : String
  tokens : String → Option String
  apps : String → Option AppId
  app : AppId → Option AppState
  child : ChildId → Option Child
  task : TaskId → TaskPhase

def Supervisor.new (endpoint : String) : Supervisor where
  endpoint := endpoint
  tokens := fun _ => none
  apps := fun _ => none
  app := fun _ => none
  child := fun _ => none
  task := fun _ => .unused

def Supervisor.setTask (s : Supervisor) (t : TaskId) (p : TaskPhase) : Supervisor :=
  { s with task := Function.update s.task t p }

def Supervisor.setToken (s : Supervisor) (service : String) (token : Option String) : Supervisor :=
  { s with tokens := Function.update s.tokens service token }

def Supervisor.setApp (s : Supervisor) (a : AppId) (st : Option AppState) : Supervisor :=
  { s with app := Function.update s.app a st }

def Supervisor.insertApp (s : Supervisor) (a : AppId) (spec : AppSpec) : Supervisor :=
  { s.setApp a (some (AppState.new spec)) with
    apps := Function.update s.apps spec.service (some a) }

def Supervisor.removeApp (s : Supervisor) (service : String) : Supervisor :=
  { s with apps := Function.update s.apps service none }

def Supervisor.setState (s : Supervisor) (c : ChildId) (p : ProcessState) : Supervisor :=
  { s with child := Function.update s.child c ((s.child c).map fun x => { x with state := p }) }

def Supervisor.slot (s : Supervisor) (a : AppId) : Option ChildId := (s.app a).bind AppState.child

def Supervisor.state (s : Supervisor) (c : ChildId) : Option ProcessState :=
  (s.child c).map Child.state

def Supervisor.Alive (s : Supervisor) (c : ChildId) : Prop := s.state c = some .alive

instance (s : Supervisor) (c : ChildId) : Decidable (s.Alive c) :=
  inferInstanceAs (Decidable (_ = _))

/-- A `Child` goes out of scope, and with `kill_on_drop` the process with it. -/
def Supervisor.dropChild (s : Supervisor) : Option ChildId → Supervisor
  | some c => if s.Alive c then s.setState c .killed else s
  | none => s

def Supervisor.startChild (s : Supervisor) (a : AppId) (st : AppState) (c : ChildId)
    (token : String) : Supervisor :=
  let old := s.dropChild st.child
  { old.setApp a (some { st with child := some c }) with
    child := Function.update old.child c (some ⟨spawnCommand s.endpoint token st.spec, .alive⟩) }

def Supervisor.Free (s : Supervisor) (a : AppId) : Prop := ∀ t, (s.task t).holds ≠ some a

def Supervisor.Unreferenced (s : Supervisor) (a : AppId) : Prop :=
  (∀ service, s.apps service ≠ some a) ∧ ∀ t, (s.task t).arc ≠ some a

def Caller.succeeded : Caller → AppId → TaskPhase
  | .resident service, a => .waitLock service a
  | .ensure, _ => .done (.ok ())

inductive SupervisorAct where
  | register (spec : AppSpec) (a : AppId)
  | startResident (service : String) (t : TaskId)
  -- `run_resident`
  | residentGet (t : TaskId) (a : Option AppId)
  | spawnLock (t : TaskId) (a : AppId)
  | waitLock (t : TaskId) (a : AppId) (c : Option ChildId)
  | waited (t : TaskId) (c : ChildId) (success : Bool) (sleep : Duration)
  | waitFailed (t : TaskId) (c : ChildId)
  | wake (t : TaskId)
  -- `spawn_once`
  | issue (t : TaskId) (a : AppId) (token : String)
  | spawned (t : TaskId) (a : AppId) (c : ChildId)
  | spawnFailed (t : TaskId) (a : AppId) (message : String)
  -- `ensure_up`
  | ensureUp (service : String) (t : TaskId)
  | ensureGet (t : TaskId) (a : Option AppId)
  | ensureLock (t : TaskId) (a : AppId)
  | running (t : TaskId) (a : AppId) (c : ChildId)
  | absent (t : TaskId) (a : AppId)
  | tryWaitFailed (t : TaskId) (a : AppId) (message : String)
  -- `register_or_replace`, `unregister` and `stop_service`
  | change (p : Purpose) (t : TaskId)
  | contains (t : TaskId) (known : Bool)
  | stopGet (t : TaskId) (a : Option AppId)
  | take (t : TaskId) (a : AppId) (c : Option ChildId)
  | kill (t : TaskId) (c : ChildId)
  | killFailed (t : TaskId) (c : ChildId)
  | killed (t : TaskId) (c : ChildId)
  | stopped (t : TaskId) (c : ChildId)
  | removed (t : TaskId) (p : Purpose)
  | inserted (t : TaskId) (spec : AppSpec) (a : AppId)
  | loop (t : TaskId) (t' : TaskId)
  -- the processes, the broker and the last `Arc` of an `AppState`
  | exit (c : ChildId) (success : Bool)
  | die (c : ChildId)
  | hello (service : String)
  | collect (a : AppId)
  deriving DecidableEq

inductive SupervisorStep : Supervisor → SupervisorAct → Supervisor → Prop where
  | register {s : Supervisor} {spec : AppSpec} {a : AppId} (new : s.app a = none) :
      SupervisorStep s (.register spec a) (s.insertApp a spec)
  | startResident {s : Supervisor} {service : String} {t : TaskId} {a : AppId} {st : AppState}
      (new : s.task t = .unused) (listed : s.apps service = some a) (found : s.app a = some st)
      (kind : st.spec.lifecycle = .resident) :
      SupervisorStep s (.startResident service t) (s.setTask t (.resident service))
  | residentGet {s : Supervisor} {service : String} {t : TaskId} {a : AppId}
      (here : s.task t = .resident service) (listed : s.apps service = some a) :
      SupervisorStep s (.residentGet t (some a)) (s.setTask t (.spawnLock service a))
  | residentGone {s : Supervisor} {service : String} {t : TaskId}
      (here : s.task t = .resident service) (absent : s.apps service = none) :
      SupervisorStep s (.residentGet t none) (s.setTask t .ended)
  | spawnLock {s : Supervisor} {service : String} {t : TaskId} {a : AppId}
      (here : s.task t = .spawnLock service a) (free : s.Free a) :
      SupervisorStep s (.spawnLock t a) (s.setTask t (.spawning (.resident service) a))
  | waitLock {s : Supervisor} {service : String} {t : TaskId} {a : AppId} {c : ChildId}
      (here : s.task t = .waitLock service a) (free : s.Free a) (found : s.slot a = some c) :
      SupervisorStep s (.waitLock t a (some c)) (s.setTask t (.waiting service a c))
  | waitNone {s : Supervisor} {service : String} {t : TaskId} {a : AppId}
      (here : s.task t = .waitLock service a) (free : s.Free a) (empty : s.slot a = none) :
      SupervisorStep s (.waitLock t a none) (s.setTask t .ended)
  -- the guard is dropped with the block that computes the status
  | waited {s : Supervisor} {service : String} {t : TaskId} {a : AppId} {c : ChildId}
      {st : AppState} {success : Bool} {b : Backoff} (here : s.task t = .waiting service a c)
      (finished : s.state c = some (.exited success)) (found : s.app a = some st)
      (pause : b = if success then st.backoff.reset else st.backoff) :
      SupervisorStep s (.waited t c success b.bump.1)
        ((s.setApp a (some { st with backoff := b.bump.2 })).setTask t (.resting service a))
  | waitFailed {s : Supervisor} {service : String} {t : TaskId} {a : AppId} {c : ChildId}
      {st : AppState} (here : s.task t = .waiting service a c) (found : s.app a = some st) :
      SupervisorStep s (.waitFailed t c)
        ((s.setApp a (some { st with backoff := st.backoff.bump.2 })).setTask t
          (.resting service a))
  | wakeResting {s : Supervisor} {service : String} {t : TaskId} {a : AppId}
      (here : s.task t = .resting service a) :
      SupervisorStep s (.wake t) (s.setTask t (.resident service))
  -- `continue` leaves the block, and with it the guard that was held through the sleep
  | wakeFailing {s : Supervisor} {service : String} {t : TaskId} {a : AppId}
      (here : s.task t = .failing service a) :
      SupervisorStep s (.wake t) (s.setTask t (.resident service))
  | issue {s : Supervisor} {t : TaskId} {u : Caller} {a : AppId} {st : AppState} {token : String}
      (here : s.task t = .spawning u a) (found : s.app a = some st) :
      SupervisorStep s (.issue t a token)
        ((s.setToken st.spec.service (some token)).setTask t (.starting u a token))
  | spawned {s : Supervisor} {t : TaskId} {u : Caller} {a : AppId} {st : AppState} {token : String}
      {c : ChildId} (here : s.task t = .starting u a token) (found : s.app a = some st)
      (new : s.child c = none) :
      SupervisorStep s (.spawned t a c) ((s.startChild a st c token).setTask t (u.succeeded a))
  | spawnFailed {s : Supervisor} {t : TaskId} {service : String} {a : AppId} {st : AppState}
      {token message : String} (here : s.task t = .starting (.resident service) a token)
      (found : s.app a = some st) :
      SupervisorStep s (.spawnFailed t a message)
        ((s.setApp a (some { st with backoff := st.backoff.bump.2 })).setTask t
          (.failing service a))
  | ensureFailed {s : Supervisor} {t : TaskId} {a : AppId} {token message : String}
      (here : s.task t = .starting .ensure a token) :
      SupervisorStep s (.spawnFailed t a message) (s.setTask t (.done (.error (.io message))))
  | ensureUp {s : Supervisor} {service : String} {t : TaskId} (new : s.task t = .unused) :
      SupervisorStep s (.ensureUp service t) (s.setTask t (.ensure service))
  | ensureGet {s : Supervisor} {service : String} {t : TaskId} {a : AppId}
      (here : s.task t = .ensure service) (listed : s.apps service = some a) :
      SupervisorStep s (.ensureGet t (some a)) (s.setTask t (.ensureLock a))
  | ensureMissing {s : Supervisor} {service : String} {t : TaskId}
      (here : s.task t = .ensure service) (absent : s.apps service = none) :
      SupervisorStep s (.ensureGet t none)
        (s.setTask t (.done (.error (.serviceNotFound service))))
  | ensureLock {s : Supervisor} {t : TaskId} {a : AppId} (here : s.task t = .ensureLock a)
      (free : s.Free a) : SupervisorStep s (.ensureLock t a) (s.setTask t (.ensuring a))
  | running {s : Supervisor} {t : TaskId} {a : AppId} {c : ChildId}
      (here : s.task t = .ensuring a) (found : s.slot a = some c)
      (up : ∀ success, s.state c ≠ some (.exited success)) :
      SupervisorStep s (.running t a c) (s.setTask t (.done (.ok ())))
  | absent {s : Supervisor} {t : TaskId} {a : AppId} (here : s.task t = .ensuring a)
      (down : ∀ c, s.slot a = some c → ∃ success, s.state c = some (.exited success)) :
      SupervisorStep s (.absent t a) (s.setTask t (.spawning .ensure a))
  | tryWaitFailed {s : Supervisor} {t : TaskId} {a : AppId} {c : ChildId} {message : String}
      (here : s.task t = .ensuring a) (found : s.slot a = some c) :
      SupervisorStep s (.tryWaitFailed t a message) (s.setTask t (.done (.error (.io message))))
  | change {s : Supervisor} {p : Purpose} {t : TaskId} (new : s.task t = .unused) :
      SupervisorStep s (.change p t) (s.setTask t (.contains p))
  | known {s : Supervisor} {p : Purpose} {t : TaskId} {a : AppId} (here : s.task t = .contains p)
      (listed : s.apps p.service = some a) :
      SupervisorStep s (.contains t true) (s.setTask t (.stop p))
  | unknownReplace {s : Supervisor} {spec : AppSpec} {t : TaskId}
      (here : s.task t = .contains (.replace spec)) (absent : s.apps spec.service = none) :
      SupervisorStep s (.contains t false) (s.setTask t (.insert spec))
  | unknownUnregister {s : Supervisor} {service : String} {t : TaskId}
      (here : s.task t = .contains (.unregister service)) (absent : s.apps service = none) :
      SupervisorStep s (.contains t false)
        (s.setTask t (.done (.error (.serviceNotFound service))))
  | stopGet {s : Supervisor} {p : Purpose} {t : TaskId} {a : AppId} (here : s.task t = .stop p)
      (listed : s.apps p.service = some a) :
      SupervisorStep s (.stopGet t (some a)) (s.setTask t (.stopLock p a))
  | stopMissing {s : Supervisor} {p : Purpose} {t : TaskId} (here : s.task t = .stop p)
      (absent : s.apps p.service = none) :
      SupervisorStep s (.stopGet t none) (s.setTask t (.remove p))
  | take {s : Supervisor} {p : Purpose} {t : TaskId} {a : AppId} {st : AppState} {c : ChildId}
      (here : s.task t = .stopLock p a) (free : s.Free a) (found : s.app a = some st)
      (full : st.child = some c) :
      SupervisorStep s (.take t a (some c))
        ((s.setApp a (some { st with child := none })).setTask t (.stopping p a c))
  | takeNone {s : Supervisor} {p : Purpose} {t : TaskId} {a : AppId}
      (here : s.task t = .stopLock p a) (free : s.Free a) (empty : s.slot a = none) :
      SupervisorStep s (.take t a none) (s.setTask t (.remove p))
  -- `child.kill()` signals the process, then waits for it
  | kill {s : Supervisor} {p : Purpose} {t : TaskId} {a : AppId} {c : ChildId}
      (here : s.task t = .stopping p a c) (up : s.Alive c) :
      SupervisorStep s (.kill t c) ((s.setState c .killed).setTask t (.killing p a c))
  | killFailed {s : Supervisor} {p : Purpose} {t : TaskId} {a : AppId} {c : ChildId}
      (here : s.task t = .stopping p a c) :
      SupervisorStep s (.killFailed t c) (s.setTask t (.stopWait p a c))
  | killWaitFailed {s : Supervisor} {p : Purpose} {t : TaskId} {a : AppId} {c : ChildId}
      (here : s.task t = .killing p a c) :
      SupervisorStep s (.killFailed t c) (s.setTask t (.stopWait p a c))
  | killed {s : Supervisor} {p : Purpose} {t : TaskId} {a : AppId} {c : ChildId} {success : Bool}
      (here : s.task t = .killing p a c) (finished : s.state c = some (.exited success)) :
      SupervisorStep s (.killed t c) (s.setTask t (.stopWait p a c))
  | stopped {s : Supervisor} {p : Purpose} {t : TaskId} {a : AppId} {c : ChildId} {success : Bool}
      (here : s.task t = .stopWait p a c) (finished : s.state c = some (.exited success)) :
      SupervisorStep s (.stopped t c) (s.setTask t (.remove p))
  | stopWaitFailed {s : Supervisor} {p : Purpose} {t : TaskId} {a : AppId} {c : ChildId}
      (here : s.task t = .stopWait p a c) :
      SupervisorStep s (.waitFailed t c) ((s.dropChild (some c)).setTask t (.remove p))
  | removedReplace {s : Supervisor} {spec : AppSpec} {t : TaskId}
      (here : s.task t = .remove (.replace spec)) :
      SupervisorStep s (.removed t (.replace spec))
        ((s.removeApp spec.service).setTask t (.insert spec))
  | removedUnregister {s : Supervisor} {service : String} {t : TaskId}
      (here : s.task t = .remove (.unregister service)) :
      SupervisorStep s (.removed t (.unregister service))
        ((s.removeApp service).setTask t (.done (.ok ())))
  | inserted {s : Supervisor} {spec : AppSpec} {t : TaskId} {a : AppId}
      (here : s.task t = .insert spec) (new : s.app a = none) :
      SupervisorStep s (.inserted t spec a)
        ((s.insertApp a spec).setTask t
          (match spec.lifecycle with
            | .resident => .loop spec.service
            | .onDemand _ => .done (.ok ())))
  | loop {s : Supervisor} {service : String} {t t' : TaskId} (here : s.task t = .loop service)
      (new : s.task t' = .unused) :
      SupervisorStep s (.loop t t')
        ((s.setTask t' (.resident service)).setTask t (.done (.ok ())))
  | exit {s : Supervisor} {c : ChildId} {success : Bool} (up : s.Alive c) :
      SupervisorStep s (.exit c success) (s.setState c (.exited success))
  | die {s : Supervisor} {c : ChildId} (signalled : s.state c = some .killed) :
      SupervisorStep s (.die c) (s.setState c (.exited false))
  | hello {s : Supervisor} {service : String} :
      SupervisorStep s (.hello service) (s.setToken service none)
  | collect {s : Supervisor} {a : AppId} (unused : s.Unreferenced a) :
      SupervisorStep s (.collect a) ((s.dropChild (s.slot a)).setApp a none)

abbrev SupervisorRun (endpoint : String) (acts : List SupervisorAct) (s : Supervisor) : Prop :=
  Run SupervisorStep (Supervisor.new endpoint) acts s

end TokimoSupervisor

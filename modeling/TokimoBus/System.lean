import TokimoBus.Writer
import TokimoBus.Correlation
import TokimoBus.ClientFacts

/-!
The broker together with the processes that connect to it: at the other end of connection
`k` runs one `BusClient`, and between them lie two byte streams, seen as the frames
written whole and not read yet. A frame is read as it was written. The host's calls, the
local handlers and the handlers of the processes act freely.
-/
namespace TokimoSystem
open TokimoFrame TokimoOutbound TokimoBroker TokimoSession TokimoClient TokimoChannel
open TokimoWriter LabelledRuns Pipes

def brokerReads : Act → Option (ConnId × BusFrame)
  | .hello k h => some (k, .hello h)
  | .noHello k (some f) => some (k, f)
  | .response k r _ => some (k, .response r)
  | .fanout k ev _ => some (k, .publish ev)
  | .subscribe k p => some (k, .subscribe p)
  | .unsubscribe k p => some (k, .unsubscribe p)
  | .spawn k inv _ => some (k, .invoke inv)
  | .ignore k f => some (k, f)
  | _ => none

def brokerWrites : Act → Option (ConnId × BusFrame)
  | .reject k f | .ack k f | .writer k (.wrote f) => some (k, f)
  | _ => none

def clientReads : ClientAct → Option BusFrame
  | .acked a => some (.helloAck a)
  | .refused f _ => f
  | .ping | .pingClosed => some .ping
  | .shutdownFrame => some .shutdown
  | .invoke inv _ => some (.invoke inv)
  | .response r _ => some (.response r)
  | .ignore f => some f
  | _ => none

def clientWrites : ClientAct → Option BusFrame
  | .greet f | .writer (.wrote f) => some f
  | _ => none

structure Processes where
  hello : ConnId → HelloRequest
  handlers : ConnId → String → Option HandlerId

structure System where
  world : World
  client : ConnId → Client
  toBroker : ConnId → List BusFrame
  toClient : ConnId → List BusFrame

def System.start (procs : Processes) : System where
  world := World.init
  client := fun k => Client.new (procs.hello k) (procs.handlers k)
  toBroker := fun _ => []
  toClient := fun _ => []

def Offers (pipe : ConnId → List BusFrame) (io : Option (ConnId × BusFrame)) : Prop :=
  ∀ k f, io = some (k, f) → (pipe k).head? = some f

def pull (pipe : ConnId → List BusFrame) : Option (ConnId × BusFrame) → ConnId → List BusFrame
  | some (k, _) => Function.update pipe k (pipe k).tail
  | none => pipe

def put (pipe : ConnId → List BusFrame) : Option (ConnId × BusFrame) → ConnId → List BusFrame
  | some (k, f) => Function.update pipe k (pipe k ++ [f])
  | none => pipe

def on (k : ConnId) (f : Option BusFrame) : Option (ConnId × BusFrame) := f.map fun f => (k, f)

inductive SystemAct where
  | broker (a : Act)
  | client (k : ConnId) (b : ClientAct)

def System.brokerMoved (s : System) (a : Act) (w : World) : System where
  world := w
  client := s.client
  toBroker := pull s.toBroker (brokerReads a)
  toClient := put s.toClient (brokerWrites a)

def System.clientMoved (s : System) (k : ConnId) (b : ClientAct) (c : Client) : System where
  world := s.world
  client := Function.update s.client k c
  toBroker := put s.toBroker (on k (clientWrites b))
  toClient := pull s.toClient (on k (clientReads b))

inductive SystemStep (env : Env) (debug : BusFrame → String) :
    System → SystemAct → System → Prop where
  | broker {s : System} {a : Act} {w : World} (step : Step env s.world a w)
      (offered : Offers s.toBroker (brokerReads a)) :
      SystemStep env debug s (.broker a) (s.brokerMoved a w)
  | client {s : System} {k : ConnId} {b : ClientAct} {c : Client}
      (step : ClientStep env.toVecNamed debug (s.client k) b c)
      (offered : Offers s.toClient (on k (clientReads b))) :
      SystemStep env debug s (.client k b) (s.clientMoved k b c)

abbrev SystemRun (env : Env) (debug : BusFrame → String) (procs : Processes)
    (acts : List SystemAct) (s : System) : Prop :=
  Run (SystemStep env debug) (System.start procs) acts s

variable {env : Env} {debug : BusFrame → String} {procs : Processes} {s s' : System}
  {x : SystemAct} {acts : List SystemAct} {k : ConnId} {f : BusFrame}

def SystemAct.ofBroker : SystemAct → List Act
  | .broker a => [a]
  | .client _ _ => []

def SystemAct.ofClient (k : ConnId) : SystemAct → List ClientAct
  | .broker _ => []
  | .client j b => if j = k then [b] else []

def brokerActs (acts : List SystemAct) : List Act := acts.flatMap SystemAct.ofBroker

def clientActs (k : ConnId) (acts : List SystemAct) : List ClientAct :=
  acts.flatMap (SystemAct.ofClient k)

theorem mem_brokerActs {a : Act} : a ∈ brokerActs acts ↔ .broker a ∈ acts := by
  constructor
  · intro mem
    obtain ⟨y, there, here⟩ := List.mem_flatMap.mp mem
    cases y with
    | broker b =>
      obtain rfl := List.mem_singleton.mp here
      exact there
    | client j b => cases here
  · intro mem
    exact List.mem_flatMap.mpr ⟨_, mem, List.mem_singleton.mpr rfl⟩

theorem mem_clientActs {b : ClientAct} : b ∈ clientActs k acts ↔ .client k b ∈ acts := by
  constructor
  · intro mem
    obtain ⟨y, there, here⟩ := List.mem_flatMap.mp mem
    cases y with
    | broker a => cases here
    | client j c =>
      by_cases eq : j = k
      · subst eq
        simp only [SystemAct.ofClient, ↓reduceIte, List.mem_singleton] at here
        rwa [here]
      · simp [SystemAct.ofClient, eq] at here
  · intro mem
    exact List.mem_flatMap.mpr ⟨_, mem, by simp [SystemAct.ofClient]⟩

theorem broker_part {v : System} (run : Run (SystemStep env debug) v acts s) :
    Run (Step env) v.world (brokerActs acts) s.world := by
  refine run_map System.world SystemAct.ofBroker ?_ run
  intro v y v' _ step
  cases step with
  | broker step => exact run_single step
  | client => exact Run.nil

theorem client_part {v : System} (run : Run (SystemStep env debug) v acts s) (k : ConnId) :
    Run (ClientStep env.toVecNamed debug) (v.client k) (clientActs k acts) (s.client k) := by
  refine run_map (fun s : System => s.client k) (SystemAct.ofClient k) ?_ run
  intro v y v' _ step
  cases step with
  | broker => exact Run.nil
  | @client j b c step =>
    by_cases eq : j = k
    · subst eq
      simpa [SystemAct.ofClient, System.clientMoved] using run_single step
    · simp only [SystemAct.ofClient, if_neg eq, System.clientMoved,
        Function.update_of_ne (Ne.symm eq)]
      exact Run.nil

theorem broker_run (run : SystemRun env debug procs acts s) :
    BrokerRun env (brokerActs acts) s.world :=
  broker_part run

theorem client_run (run : SystemRun env debug procs acts s) (k : ConnId) :
    ClientRun env.toVecNamed debug (procs.hello k) (procs.handlers k) (clientActs k acts)
      (s.client k) :=
  client_part run k

theorem world_stable {start : System} {p : World → Prop}
    (keeps : ∀ {w a w'}, Step env w a w' → p w → p w') :
    Stable (SystemStep env debug) start fun s => p s.world := by
  intro s x s' _ step now
  cases step with
  | broker one => exact keeps one now
  | client => exact now

theorem client_stable {start : System} {p : Client → Prop}
    (keeps : ∀ {c b c'}, ClientStep env.toVecNamed debug c b c' → p c → p c') (k : ConnId) :
    Stable (SystemStep env debug) start fun s => p (s.client k) := by
  intro s x s' _ step now
  cases step with
  | broker => exact now
  | @client j b c one =>
    by_cases eq : j = k
    · subst eq
      simpa [System.clientMoved] using keeps one now
    · simpa [System.clientMoved, Ne.symm eq] using now

end TokimoSystem

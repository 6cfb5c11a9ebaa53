import TokimoBus.SystemStreams
import TokimoBus.ClientProgress
import TokimoBus.Progress

/-!
Runs of the parts put together to runs of the system, for one process and the broker. A
part may take the steps of its own run as long as the frames it reads come in on its stream.
-/
namespace TokimoSystem
open TokimoFrame TokimoOutbound TokimoBroker TokimoSession TokimoClient LabelledRuns Pipes
variable {env : Env} {debug : BusFrame → String} {procs : Processes} {k : ConnId} {w w' : World}
  {c c' : Client} {up down : List BusFrame}

def System.pair (procs : Processes) (k : ConnId) (w : World) (c : Client)
    (up down : List BusFrame) : System where
  world := w
  client := Function.update (System.start procs).client k c
  toBroker := Function.update (fun _ => []) k up
  toClient := Function.update (fun _ => []) k down

theorem start_pair (procs : Processes) (k : ConnId) : System.start procs =
    System.pair procs k World.init (Client.new (procs.hello k) (procs.handlers k)) [] [] := by
  simp [System.pair, System.start]

theorem put_pair (pipe : ConnId → List BusFrame) (k : ConnId) (content : List BusFrame)
    (io : Option BusFrame) : put (Function.update pipe k content) (on k io) =
      Function.update pipe k (content ++ io.toList) := by
  cases io <;> simp [put, on]

theorem pull_pair (pipe : ConnId → List BusFrame) (k : ConnId) (content : List BusFrame)
    (io : Option BusFrame) : pull (Function.update pipe k (io.toList ++ content)) (on k io) =
      Function.update pipe k content := by
  cases io <;> simp [pull, on]

theorem offers_pair (pipe : ConnId → List BusFrame) (k : ConnId) (content : List BusFrame)
    (io : Option BusFrame) : Offers (Function.update pipe k (io.toList ++ content)) (on k io) := by
  intro j f same
  obtain ⟨rfl, rfl⟩ := on_eq.mp same
  simp

theorem on_ofConn {io : Option (ConnId × BusFrame)} (alone : ∀ j f, io = some (j, f) → j = k) :
    on k (ofConn k io) = io := by
  cases io with
  | none => rfl
  | some p =>
    obtain ⟨j, f⟩ := p
    obtain rfl := alone j f rfl
    simp [on, ofConn]

theorem client_moves {steps : List ClientAct} {rest : List BusFrame}
    (run : Run (ClientStep env.toVecNamed debug) c steps c')
    (feed : down = steps.filterMap clientReads ++ rest) :
    Run (SystemStep env debug) (System.pair procs k w c up down) (steps.map (.client k))
      (System.pair procs k w c' (up ++ steps.filterMap clientWrites) rest) := by
  induction run generalizing rest with
  | nil =>
    subst feed
    simpa using Run.nil
  | @snoc steps v v' b before last ih =>
    rw [filterMap_snoc, List.append_assoc] at feed
    rw [List.map_append, filterMap_snoc, ← List.append_assoc]
    refine (ih feed).snoc ?_
    have moved := @SystemStep.client env debug (System.pair procs k w v
      (up ++ steps.filterMap clientWrites) ((clientReads b).toList ++ rest)) k b v'
      (by simpa [System.pair] using last) (offers_pair _ _ _ _)
    have same : (System.pair procs k w v (up ++ steps.filterMap clientWrites)
        ((clientReads b).toList ++ rest)).clientMoved k b v' =
        System.pair procs k w v' (up ++ steps.filterMap clientWrites ++ (clientWrites b).toList)
          rest := by
      simp only [System.clientMoved, System.pair, put_pair, pull_pair, Function.update_idem]
    rwa [same] at moved

theorem broker_moves {acts : List Act} {rest : List BusFrame} (run : Run (Step env) w acts w')
    (alone : ∀ a ∈ acts, ∀ j f, brokerReads a = some (j, f) ∨ brokerWrites a = some (j, f) → j = k)
    (feed : up = acts.filterMap (fun a => ofConn k (brokerReads a)) ++ rest) :
    Run (SystemStep env debug) (System.pair procs k w c up down) (acts.map .broker)
      (System.pair procs k w' c rest
        (down ++ acts.filterMap (fun a => ofConn k (brokerWrites a)))) := by
  induction run generalizing rest with
  | nil =>
    subst feed
    simpa using Run.nil
  | @snoc acts v v' a before last ih =>
    rw [filterMap_snoc, List.append_assoc] at feed
    rw [List.map_append, filterMap_snoc, ← List.append_assoc]
    have before := ih (fun a mem => alone a (List.mem_append_left _ mem)) feed
    refine before.snoc ?_
    have own := alone a (by simp)
    obtain ⟨r, reads⟩ : ∃ r, brokerReads a = on k r :=
      ⟨_, (on_ofConn fun j f same => own j f (Or.inl same)).symm⟩
    obtain ⟨o, writes⟩ : ∃ o, brokerWrites a = on k o :=
      ⟨_, (on_ofConn fun j f same => own j f (Or.inr same)).symm⟩
    simp only [reads, writes, ofConn_on, ↓reduceIte]
    have moved := @SystemStep.broker env debug (System.pair procs k v c (r.toList ++ rest)
      (down ++ acts.filterMap (fun a => ofConn k (brokerWrites a)))) a v' last
      (by rw [reads]; exact offers_pair _ _ _ _)
    rw [System.brokerMoved, reads, writes] at moved
    simp only [System.pair, put_pair, pull_pair] at moved
    exact moved

structure Ready (c : Client) (next : InvokeId) : Prop where
  reading : c.runner = .reading
  alive : c.out.IsOpen
  fresh : ∀ i, next ≤ i → c.invokePhase i = .unused

theorem ready_queued {next : InvokeId} (ready : Ready c next) (x : InvokeArgs) :
    Ready (c.queued next x) (next + 1) := by
  simp only [Client.queued, Client.invoking, Client.setInvokePhase, Client.begin, Client.push,
    Client.setOut, Client.setPending, Client.takeReqId, Function.update_idem]
  constructor
  · exact ready.reading
  · exact ready.alive
  · intro i later
    have ne : i ≠ next := Nat.ne_of_gt later
    have old := ready.fresh i (Nat.le_of_lt later)
    simpa [ne] using old

theorem invoke_many {next : InvokeId} (ready : Ready c next) (x : InvokeArgs) (n : Nat) :
    ∃ steps c', Run (ClientStep env.toVecNamed debug) c steps c' ∧ Ready c' (next + n) ∧
      c'.nextReqId = c.nextReqId + UInt64.ofNat n ∧ steps.filterMap clientReads = [] ∧
      steps.filterMap clientWrites = [] := by
  induction n with
  | zero => exact ⟨[], c, Run.nil, ready, by simp, rfl, rfl⟩
  | succ n ih =>
    obtain ⟨steps, v, run, still, counter, unread, unwritten⟩ := ih
    have queued := @invoke_queues env.toVecNamed debug v (next + n) x
      (still.fresh _ (Nat.le_refl _)) (Or.inl (by rw [still.reading]; rfl)) still.alive
    refine ⟨_, _, run_append run queued, ready_queued still x, ?_, ?_, ?_⟩
    · change v.nextReqId + 1 = _
      rw [counter, UInt64.ofNat_add, UInt64.add_assoc]
      rfl
    · rw [List.filterMap_append, unread]
      rfl
    · rw [List.filterMap_append, unwritten]
      rfl

end TokimoSystem
